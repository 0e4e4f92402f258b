import Argos.Queue.Archive

/-!
# The files that `verify_archive` accepts

`verifyArchive_ok_iff` says which files are accepted: a header line, a line for each receipt, a
trailer line that fits them, and nothing more. It follows that no accepted file goes on where another
ends, and that the lines of an accepted file make no other accepted file, as long as the two contents
before the trailer do not have the same hash.
-/

namespace Argos.Queue

open Argos.Lib
open Argos.Vault (Bytes Result Error refuse saturatingAdd validId)
open Argos.Vault (refuse_ok_iff Result.bind_ok_iff Result.check_ok_iff exists_unit_iff)

/-! ## Lines -/

/-- A text without a line break, and a line break. -/
def IsLine (l : Bytes) : Prop := ∃ text, l = text ++ [newline] ∧ newline ∉ text

theorem IsLine.ne_nil {l : Bytes} (h : IsLine l) : l ≠ [] := by
  obtain ⟨text, rfl, -⟩ := h
  simp

theorem IsLine.getLast? {l : Bytes} (h : IsLine l) : l.getLast? = some newline := by
  obtain ⟨text, rfl, -⟩ := h
  simp

/-- A line that fits is read whole. -/
theorem readLine_line {l : Bytes} (rest : Bytes) (h : IsLine l) {limit : Nat} (hlimit : l.length ≤ limit) :
    readLine limit (l ++ rest) = (l, rest) := by
  obtain ⟨text, rfl, hfree⟩ := h
  induction text generalizing limit with
  | nil =>
    obtain ⟨limit, rfl⟩ : ∃ k, limit = k + 1 := ⟨limit - 1, by simp at hlimit; omega⟩
    simp [readLine]
  | cons b text ih =>
    obtain ⟨limit, rfl⟩ : ∃ k, limit = k + 1 := ⟨limit - 1, by simp at hlimit; omega⟩
    rw [List.mem_cons, not_or] at hfree
    have hrest := ih hfree.2 (by simpa using hlimit)
    rw [List.cons_append, List.cons_append, readLine, if_neg (fun h => hfree.1 h.symm), hrest]

/-- What was read and what is left make up the file; a line break that was read is the last byte. -/
theorem readLine_spec (limit : Nat) (file : Bytes) :
    file = (readLine limit file).1 ++ (readLine limit file).2 ∧
      ((readLine limit file).1.getLast? = some newline → IsLine (readLine limit file).1) := by
  induction limit generalizing file with
  | zero => simp [readLine]
  | succ limit ih =>
    cases file with
    | nil => simp [readLine]
    | cons b rest =>
      rw [readLine]
      split
      · next hb =>
        subst hb
        exact ⟨rfl, fun _ => ⟨[], rfl, by simp⟩⟩
      · next hb =>
        obtain ⟨hsplit, hline⟩ := ih rest
        refine ⟨by rw [List.cons_append, ← hsplit], fun hlast => ?_⟩
        rcases hread : (readLine limit rest).1 with _ | ⟨c, more⟩
        · rw [hread] at hlast
          simp only [List.getLast?_singleton, Option.some.injEq] at hlast
          exact (hb hlast).elim
        · rw [hread, List.getLast?_cons_cons] at hlast
          rw [hread] at hline
          obtain ⟨text, htext, hfree⟩ := hline hlast
          exact ⟨b :: text, by rw [htext, List.cons_append], by simp [hfree, Ne.symm hb]⟩

/-- Only at the end of the file is nothing read. -/
theorem readLine_eq_nil (limit : Nat) {file : Bytes} (h : (readLine (limit + 1) file).1 = []) :
    file = [] := by
  cases file with
  | nil => rfl
  | cons b rest =>
    rw [readLine] at h
    split at h <;> simp at h

/-! ## Turns -/

section Turns

variable {F : Formats} {publicKey : String} {scan scan' : Scan}

/-- The scan with the bytes of one more line counted. -/
def Scan.count (scan : Scan) (bytes : Bytes) : Scan :=
  { scan with size := scan.size + bytes.length, full := scan.full ++ bytes }

/-- What a line must be for a turn to go on. -/
def Scan.Admits (scan : Scan) (bytes : Bytes) : Prop :=
  bytes.length ≤ maxLine ∧ bytes.getLast? = some newline ∧
    scan.size + bytes.length ≤ maxExport ∧ scan.trailer = false

theorem Scan.step_ok_iff {bytes : Bytes} :
    scan.step F publicKey bytes = .ok scan' ↔ scan.Admits bytes ∧
      ((∃ format target archivedItems at_,
          F.archive.decode bytes = some (.header format target archivedItems at_) ∧
          scan.target = none ∧ scan.seen = 0 ∧
          (scan.count bytes).header publicKey bytes format target archivedItems = .ok scan') ∨
        (∃ item, F.archive.decode bytes = some (.receipt item) ∧
          (scan.count bytes).receipt F bytes item = .ok scan') ∨
        ∃ archivedItems contentSha256,
          F.archive.decode bytes = some (.trailer archivedItems contentSha256) ∧
          scan.target.isSome ∧
          (scan.count bytes).end F archivedItems contentSha256 = .ok scan') := by
  simp only [Scan.step, Result.check_ok_iff, refuse_ok_iff, Scan.Admits, Bool.or_eq_false_iff,
    decide_eq_false_iff_not, not_lt, gt_iff_lt, bne_eq_false_iff_eq, and_assoc]
  refine and_congr_right fun _ => and_congr_right fun _ => and_congr_right fun _ =>
    and_congr_right fun _ => ?_
  rcases hdecode : F.archive.decode bytes with _ | record
  · simp
  cases record with
  | header format target archivedItems at_ =>
    by_cases hfresh : scan.target = none ∧ scan.seen = 0
    · simp [hfresh.1, hfresh.2, Scan.count]
    · have hguard : ¬(scan.target.isNone && scan.seen == 0) = true := by simpa using hfresh
      simp only [hguard]
      constructor
      · intro h; cases h
      · rintro (⟨_, _, _, _, _, h1, h2, _⟩ | ⟨_, h, _⟩ | ⟨_, _, h, _⟩)
        · exact (hfresh ⟨h1, h2⟩).elim
        · cases h
        · cases h
  | receipt item => simp [Scan.count]
  | trailer archivedItems contentSha256 =>
    by_cases hsome : scan.target.isSome = true
    · simp [hsome, Scan.count]
    · simp [hsome]

/-- The loop takes the file line by line. -/
theorem scanLines_ok_iff {turns : Nat} {file : Bytes} (hturns : file.length < turns) :
    scanLines F publicKey turns scan file = .ok scan' ↔
      ∃ lines : List Bytes, file = lines.flatten ∧ (∀ l ∈ lines, IsLine l) ∧
        lines.foldlM (Scan.step F publicKey) scan = .ok scan' := by
  constructor
  · intro h
    induction turns generalizing scan file with
    | zero => omega
    | succ turns ih =>
      rw [scanLines] at h
      obtain ⟨hsplit, hline⟩ := readLine_spec (maxLine + 1) file
      rcases hread : readLine (maxLine + 1) file with ⟨bytes, rest⟩
      rw [hread] at h hsplit hline
      cases bytes with
      | nil =>
        have hnil := readLine_eq_nil maxLine (by rw [hread] : (readLine _ file).1 = [])
        exact ⟨[], hnil, by simp, h⟩
      | cons b more =>
        obtain ⟨scan₁, hstep, hrest⟩ := Result.bind_ok_iff.1 h
        have hlast := (Scan.step_ok_iff.1 hstep).1.2.1
        have hshort : rest.length < turns := by
          have := congrArg List.length hsplit
          simp only [List.length_append, List.length_cons] at this
          omega
        obtain ⟨lines, hrest', hlines, hfold⟩ := ih hshort hrest
        refine ⟨(b :: more) :: lines, ?_, ?_, ?_⟩
        · rw [List.flatten_cons, ← hrest', ← hsplit]
        · exact List.forall_mem_cons.2 ⟨hline hlast, hlines⟩
        · rw [List.foldlM_cons]
          exact Result.bind_ok_iff.2 ⟨scan₁, hstep, hfold⟩
  · rintro ⟨lines, rfl, hlines, hfold⟩
    induction lines generalizing scan turns with
    | nil =>
      obtain ⟨turns, rfl⟩ : ∃ k, turns = k + 1 := ⟨turns - 1, by omega⟩
      cases hfold
      rfl
    | cons l lines ih =>
      obtain ⟨turns, rfl⟩ : ∃ k, turns = k + 1 := ⟨turns - 1, by omega⟩
      rw [List.foldlM_cons] at hfold
      obtain ⟨scan₁, hstep, hmore⟩ := Result.bind_ok_iff.1 hfold
      have hl := hlines l List.mem_cons_self
      have hshort := (Scan.step_ok_iff.1 hstep).1.1
      have hrest : (lines.flatten).length < turns := by
        have := List.length_pos_iff.2 hl.ne_nil
        rw [List.flatten_cons, List.length_append] at hturns
        omega
      rw [scanLines, List.flatten_cons, readLine_line _ hl (by omega)]
      obtain ⟨b, more, rfl⟩ := List.exists_cons_of_ne_nil hl.ne_nil
      exact Result.bind_ok_iff.2 ⟨scan₁, hstep, ih hrest (fun l hl => hlines l (by simp [hl])) hmore⟩

/-! ## The parts of a file -/

theorem Scan.header_ok_iff {bytes : Bytes} {format : String} {target : QueueTarget}
    {archivedItems : Nat} :
    scan.header publicKey bytes format target archivedItems = .ok scan' ↔
      (format = archiveFormat ∧ archivedItems ≤ maxArchiveItems ∧ target.pinnedPubkey = publicKey ∧
        validId target.agentId ∧ validId target.keyId) ∧
      scan' = { scan with
        expected := archivedItems
        target := some target
        content := scan.content ++ bytes } := by
  simp only [Scan.header, Result.check_ok_iff, refuse_ok_iff, Bool.or_eq_false_iff,
    bne_eq_false_iff_eq, decide_eq_false_iff_not, not_lt, gt_iff_lt, Bool.not_eq_false', and_assoc,
    Except.ok.injEq]
  rw [eq_comm (b := scan')]

theorem Scan.receipt_ok_iff {bytes : Bytes} {item : QueueItem} {target : QueueTarget}
    (htarget : scan.target = some target) :
    scan.receipt F bytes item = .ok scan' ↔
      (verifiedItem F item target = .ok () ∧ scan.seen + 1 ≤ scan.expected ∧ item.id ∉ scan.ids ∧
        (item.kind, item.sha256) ∉ scan.objects) ∧
      scan' = { scan with
        seen := scan.seen + 1
        ids := item.id :: scan.ids
        objects := (item.kind, item.sha256) :: scan.objects
        content := scan.content ++ bytes } := by
  simp only [Scan.receipt, htarget, Result.check_ok_iff, refuse_ok_iff, Bool.or_eq_false_iff,
    decide_eq_false_iff_not, not_lt, gt_iff_lt, List.contains_eq_mem, and_assoc, Except.ok.injEq]
  rw [eq_comm (b := scan')]

theorem Scan.end_ok_iff {archivedItems : Nat} {contentSha256 : String} :
    scan.end F archivedItems contentSha256 = .ok scan' ↔
      (archivedItems = scan.seen ∧ scan.seen = scan.expected ∧
        contentSha256 = F.sha256 scan.content) ∧
      scan' = { scan with trailer := true } := by
  simp only [Scan.end, Result.check_ok_iff, refuse_ok_iff, Bool.or_eq_false_iff,
    bne_eq_false_iff_eq, and_assoc, Except.ok.injEq]
  rw [eq_comm (b := scan')]

variable (F) in
/-- Lines that are taken as the receipts of a target, after those that the scan has seen. -/
structure Scan.Receipts (scan : Scan) (target : QueueTarget) (receipts : List (Bytes × QueueItem)) :
    Prop where
  decoded : ∀ p ∈ receipts, F.archive.decode p.1 = some (.receipt p.2)
  verified : ∀ p ∈ receipts, verifiedItem F p.2 target = .ok ()
  newId : ∀ p ∈ receipts, p.2.id ∉ scan.ids
  newObject : ∀ p ∈ receipts, (p.2.kind, p.2.sha256) ∉ scan.objects
  ids : (receipts.map (fun p => p.2.id)).Nodup
  objects : (receipts.map (fun p => (p.2.kind, p.2.sha256))).Nodup

/-- The scan after one receipt. -/
def Scan.push (scan : Scan) (bytes : Bytes) (item : QueueItem) : Scan :=
  { scan with
    size := scan.size + bytes.length
    full := scan.full ++ bytes
    seen := scan.seen + 1
    ids := item.id :: scan.ids
    objects := (item.kind, item.sha256) :: scan.objects
    content := scan.content ++ bytes }

/-- Receipts after a first one. -/
theorem Scan.receipts_cons {target : QueueTarget} {bytes : Bytes} {item : QueueItem}
    {receipts : List (Bytes × QueueItem)} :
    scan.Receipts F target ((bytes, item) :: receipts) ↔
      (F.archive.decode bytes = some (.receipt item) ∧ verifiedItem F item target = .ok () ∧
        item.id ∉ scan.ids ∧ (item.kind, item.sha256) ∉ scan.objects) ∧
      (scan.push bytes item).Receipts F target receipts := by
  constructor
  · intro h
    have hids := List.nodup_cons.1 h.ids
    have hobjects := List.nodup_cons.1 h.objects
    refine ⟨⟨h.decoded _ List.mem_cons_self, h.verified _ List.mem_cons_self,
      h.newId _ List.mem_cons_self, h.newObject _ List.mem_cons_self⟩, ?_⟩
    refine ⟨fun p hp => h.decoded p (List.mem_cons_of_mem _ hp),
      fun p hp => h.verified p (List.mem_cons_of_mem _ hp), fun p hp => ?_, fun p hp => ?_, hids.2,
      hobjects.2⟩
    · have hne : p.2.id ≠ item.id := fun he =>
        hids.1 (List.mem_map.2 ⟨p, hp, he⟩)
      exact List.not_mem_cons_of_ne_of_not_mem hne (h.newId p (List.mem_cons_of_mem _ hp))
    · have hne : (p.2.kind, p.2.sha256) ≠ (item.kind, item.sha256) := fun he =>
        hobjects.1 (List.mem_map.2 ⟨p, hp, he⟩)
      exact List.not_mem_cons_of_ne_of_not_mem hne (h.newObject p (List.mem_cons_of_mem _ hp))
  · rintro ⟨⟨hdecoded, hverified, hid, hobject⟩, h⟩
    refine ⟨List.forall_mem_cons.2 ⟨hdecoded, h.decoded⟩, List.forall_mem_cons.2 ⟨hverified, h.verified⟩,
      List.forall_mem_cons.2 ⟨hid, fun p hp => ?_⟩, List.forall_mem_cons.2 ⟨hobject, fun p hp => ?_⟩,
      List.nodup_cons.2 ⟨fun hmem => ?_, h.ids⟩, List.nodup_cons.2 ⟨fun hmem => ?_, h.objects⟩⟩
    · exact fun hmem => h.newId p hp (List.mem_cons_of_mem _ hmem)
    · exact fun hmem => h.newObject p hp (List.mem_cons_of_mem _ hmem)
    · obtain ⟨p, hp, he⟩ := List.mem_map.1 hmem
      exact h.newId p hp (by rw [Scan.push, he]; exact List.mem_cons_self)
    · obtain ⟨p, hp, he⟩ := List.mem_map.1 hmem
      exact h.newObject p hp (by rw [Scan.push, he]; exact List.mem_cons_self)

/-- The text of receipts. -/
def textOf (receipts : List (Bytes × QueueItem)) : Bytes := (receipts.map (·.1)).flatten

variable (F) in
/-- What follows a header: receipts, and the trailer line that fits them. -/
structure Scan.Body (scan : Scan) (target : QueueTarget) (receipts : List (Bytes × QueueItem))
    (last : Bytes) : Prop where
  taken : scan.Receipts F target receipts
  expected : scan.seen + receipts.length = scan.expected
  short : ∀ l ∈ receipts.map (·.1) ++ [last], l.length ≤ maxLine ∧ l.getLast? = some newline
  size : scan.size + (textOf receipts ++ last).length ≤ maxExport
  closed : F.archive.decode last =
    some (.trailer scan.expected (F.sha256 (scan.content ++ textOf receipts)))

/-- A body that begins with a receipt. -/
theorem Scan.body_cons {target : QueueTarget} {bytes : Bytes} {item : QueueItem}
    {receipts : List (Bytes × QueueItem)} {last : Bytes} :
    scan.Body F target ((bytes, item) :: receipts) last ↔
      (F.archive.decode bytes = some (.receipt item) ∧ verifiedItem F item target = .ok () ∧
        item.id ∉ scan.ids ∧ (item.kind, item.sha256) ∉ scan.objects ∧ bytes.length ≤ maxLine ∧
        bytes.getLast? = some newline) ∧ (scan.push bytes item).Body F target receipts last := by
  have htext : textOf ((bytes, item) :: receipts) = bytes ++ textOf receipts := by
    simp [textOf]
  constructor
  · intro h
    obtain ⟨⟨hdecoded, hverified, hid, hobject⟩, htaken⟩ := Scan.receipts_cons.1 h.taken
    obtain ⟨⟨hlength, hlast⟩, hshort⟩ := List.forall_mem_cons.1 h.short
    refine ⟨⟨hdecoded, hverified, hid, hobject, hlength, hlast⟩, htaken, ?_, hshort, ?_, ?_⟩
    · have := h.expected
      rw [List.length_cons] at this
      rw [Scan.push]
      dsimp only
      omega
    · have := h.size
      rw [htext, List.append_assoc, List.length_append] at this
      rw [Scan.push]
      dsimp only
      omega
    · have := h.closed
      rwa [htext, ← List.append_assoc] at this
  · rintro ⟨⟨hdecoded, hverified, hid, hobject, hlength, hlast⟩, h⟩
    refine ⟨Scan.receipts_cons.2 ⟨⟨hdecoded, hverified, hid, hobject⟩, h.taken⟩, ?_,
      List.forall_mem_cons.2 ⟨⟨hlength, hlast⟩, h.short⟩, ?_, ?_⟩
    · have := h.expected
      rw [Scan.push] at this
      dsimp only at this
      rw [List.length_cons]
      omega
    · have := h.size
      rw [Scan.push] at this
      dsimp only at this
      rw [htext, List.append_assoc, List.length_append]
      omega
    · have := h.closed
      rwa [htext, ← List.append_assoc]

/-- The scan at the end of a file. -/
def Scan.Closed (scan scan' : Scan) (target : QueueTarget) (text : Bytes) : Prop :=
  scan'.trailer = true ∧ scan'.full = scan.full ++ text ∧ scan'.seen = scan.expected ∧
    scan'.size = scan.size + text.length ∧ scan'.target = some target

/-- Behind a trailer nothing is taken. -/
theorem Scan.foldlM_of_trailer {lines : List Bytes} (htrailer : scan.trailer = true)
    (h : lines.foldlM (Scan.step F publicKey) scan = .ok scan') : lines = [] ∧ scan' = scan := by
  cases lines with
  | nil =>
    cases h
    exact ⟨rfl, rfl⟩
  | cons l lines =>
    rw [List.foldlM_cons] at h
    obtain ⟨scan₁, hstep, -⟩ := Result.bind_ok_iff.1 h
    have := (Scan.step_ok_iff.1 hstep).1.2.2.2
    rw [htrailer] at this
    cases this

/-- Behind a header, lines that are taken to a trailer are a body. -/
theorem Scan.body_of_foldlM {target : QueueTarget} {lines : List Bytes}
    (htarget : scan.target = some target) (hopen : scan.trailer = false)
    (h : lines.foldlM (Scan.step F publicKey) scan = .ok scan') (hclosed : scan'.trailer = true) :
    ∃ receipts last, lines = receipts.map (·.1) ++ [last] ∧ scan.Body F target receipts last ∧
      scan.Closed scan' target lines.flatten := by
  induction lines generalizing scan with
  | nil =>
    cases h
    rw [hopen] at hclosed
    cases hclosed
  | cons l lines ih =>
    rw [List.foldlM_cons] at h
    obtain ⟨scan₁, hstep, hrest⟩ := Result.bind_ok_iff.1 h
    obtain ⟨⟨hlength, hlast, hsize, -⟩, hcase⟩ := Scan.step_ok_iff.1 hstep
    rcases hcase with ⟨_, _, _, _, _, hnone, _⟩ | ⟨item, hdecode, hreceipt⟩ | ⟨n, hash, hdecode, -, hend⟩
    · rw [htarget] at hnone
      cases hnone
    · obtain ⟨⟨hverified, -, hid, hobject⟩, rfl⟩ :=
        (Scan.receipt_ok_iff (show (scan.count l).target = some target from htarget)).1 hreceipt
      obtain ⟨receipts, last, rfl, hbody, htrailer, hfull, hseen, hsize', ht⟩ :=
        ih (show (scan.push l item).target = some target from htarget) hopen hrest
      refine ⟨(l, item) :: receipts, last, rfl, Scan.body_cons.2
        ⟨⟨hdecode, hverified, hid, hobject, hlength, hlast⟩, hbody⟩, htrailer, ?_, hseen, ?_, ht⟩
      · rw [hfull, List.flatten_cons, ← List.append_assoc]
        rfl
      · rw [hsize', List.flatten_cons, List.length_append, ← Nat.add_assoc]
        rfl
    · obtain ⟨⟨hn, hseen, hhash⟩, rfl⟩ := Scan.end_ok_iff.1 hend
      obtain ⟨rfl, rfl⟩ := Scan.foldlM_of_trailer
        (show ({ scan.count l with trailer := true } : Scan).trailer = true from rfl) hrest
      refine ⟨[], l, rfl, ⟨⟨?_, ?_, ?_, ?_, ?_, ?_⟩, ?_, ?_, ?_, ?_⟩, rfl, ?_, hseen, ?_, htarget⟩
      · simp
      · simp
      · simp
      · simp
      · simp
      · simp
      · exact hseen
      · simp [hlength, hlast]
      · simpa [textOf] using hsize
      · have hcontent : scan.content ++ textOf [] = scan.content := by simp [textOf]
        rw [hcontent, hdecode, hn, hhash]
        exact congrArg (fun k => some (Record.trailer k (F.sha256 scan.content))) hseen
      · simp [Scan.count]
      · simp [Scan.count]

/-- Behind a header, a body is taken. -/
theorem Scan.foldlM_of_body (publicKey : String) {target : QueueTarget} {receipts : List (Bytes × QueueItem)}
    {last : Bytes} (htarget : scan.target = some target) (hopen : scan.trailer = false)
    (h : scan.Body F target receipts last) :
    ∃ scan', (receipts.map (·.1) ++ [last]).foldlM (Scan.step F publicKey) scan = .ok scan' ∧
      scan.Closed scan' target (textOf receipts ++ last) := by
  induction receipts generalizing scan with
  | nil =>
    have hsize := h.size
    have hlast := h.short last (by simp)
    have hclosed := h.closed
    have hexpected := h.expected
    simp only [textOf, List.map_nil, List.flatten_nil, List.nil_append, List.append_nil] at hsize hclosed
    simp only [List.length_nil, Nat.add_zero] at hexpected
    refine ⟨{ scan.count last with trailer := true }, ?_, rfl, ?_, hexpected, ?_, htarget⟩
    · have hstep : scan.step F publicKey last = .ok { scan.count last with trailer := true } :=
        Scan.step_ok_iff.2 ⟨⟨hlast.1, hlast.2, hsize, hopen⟩, .inr (.inr ⟨_, _, hclosed,
          by rw [htarget]; rfl, Scan.end_ok_iff.2 ⟨⟨hexpected.symm, hexpected, rfl⟩, rfl⟩⟩)⟩
      simp [hstep]
    · simp [Scan.count, textOf]
    · simp [Scan.count, textOf]
  | cons p receipts ih =>
    obtain ⟨bytes, item⟩ := p
    obtain ⟨⟨hdecode, hverified, hid, hobject, hlength, hlast⟩, hbody⟩ := Scan.body_cons.1 h
    obtain ⟨scan', hfold, htrailer, hfull, hseen, hsize, ht⟩ :=
      @ih (scan.push bytes item) htarget hopen hbody
    have hroom : scan.size + bytes.length ≤ maxExport := by
      have := h.size
      simp only [textOf, List.map_cons, List.flatten_cons, List.length_append] at this
      omega
    have hmore : scan.seen + 1 ≤ scan.expected := by
      have := h.expected
      rw [List.length_cons] at this
      omega
    have hstep : scan.step F publicKey bytes = .ok (scan.push bytes item) :=
      Scan.step_ok_iff.2 ⟨⟨hlength, hlast, hroom, hopen⟩, .inr (.inl ⟨item, hdecode,
        (Scan.receipt_ok_iff (show (scan.count bytes).target = some target from htarget)).2
          ⟨⟨hverified, hmore, hid, hobject⟩, rfl⟩⟩)⟩
    refine ⟨scan', ?_, htrailer, ?_, hseen, ?_, ht⟩
    · rw [List.map_cons, List.cons_append, List.foldlM_cons]
      exact Result.bind_ok_iff.2 ⟨_, hstep, hfold⟩
    · rw [hfull]
      simp [Scan.push, textOf]
    · rw [hsize]
      simp [Scan.push, textOf]
      omega

end Turns

/-! ## Accepted files -/

section Accepted

variable (F : Formats) (publicKey : String)

/-- A file that is a header line, the lines of its receipts and the trailer line that fits them. -/
structure Wellformed (file : Bytes) (target : QueueTarget) (first : Bytes)
    (receipts : List (Bytes × QueueItem)) (last : Bytes) : Prop where
  parts : file = first ++ textOf receipts ++ last
  size : file.length ≤ maxExport
  lines : ∀ l ∈ first :: receipts.map (·.1) ++ [last], IsLine l ∧ l.length ≤ maxLine
  header : ∃ at_, F.archive.decode first =
    some (.header archiveFormat target receipts.length at_)
  count : receipts.length ≤ maxArchiveItems
  pinned : target.pinnedPubkey = publicKey ∧ validId target.agentId ∧ validId target.keyId
  decoded : ∀ p ∈ receipts, F.archive.decode p.1 = some (.receipt p.2)
  verified : ∀ p ∈ receipts, verifiedItem F p.2 target = .ok ()
  ids : (receipts.map (fun p => p.2.id)).Nodup
  objects : (receipts.map (fun p => (p.2.kind, p.2.sha256))).Nodup
  trailer : F.archive.decode last =
    some (.trailer receipts.length (F.sha256 (first ++ textOf receipts)))

/-- What `verify_archive` reports of a file with so many receipts. -/
def verificationOf (file : Bytes) (count : Nat) : ArchiveVerification :=
  ⟨archiveFormat, count, F.sha256 file, file.length, false⟩

variable {F publicKey} {file : Bytes} {target : QueueTarget} {first last : Bytes}
  {receipts : List (Bytes × QueueItem)}

/-- The scan behind the header. -/
def Scan.begun (target : QueueTarget) (count : Nat) (first : Bytes) : Scan :=
  { content := first, full := first, size := first.length, target := some target, expected := count }

/-- The first line that is taken is a header. -/
theorem Scan.step_first {scan : Scan} {bytes : Bytes}
    (h : ({} : Scan).step F publicKey bytes = .ok scan) :
    ∃ target count at_, F.archive.decode bytes = some (.header archiveFormat target count at_) ∧
      count ≤ maxArchiveItems ∧ target.pinnedPubkey = publicKey ∧ validId target.agentId ∧
      validId target.keyId ∧ bytes.length ≤ maxLine ∧ scan = .begun target count bytes := by
  obtain ⟨⟨hlength, -⟩, hcase⟩ := Scan.step_ok_iff.1 h
  rcases hcase with ⟨format, target, count, at_, hdecode, -, -, hheader⟩ | ⟨item, -, hreceipt⟩ |
    ⟨_, _, _, hsome, _⟩
  · obtain ⟨⟨rfl, hcount, hkey, hagent, hid⟩, rfl⟩ := Scan.header_ok_iff.1 hheader
    exact ⟨target, count, at_, hdecode, hcount, hkey, hagent, hid, hlength,
      by simp [Scan.begun, Scan.count]⟩
  · cases hreceipt
  · cases hsome

theorem Wellformed.body (h : Wellformed F publicKey file target first receipts last) :
    (Scan.begun target receipts.length first).Body F target receipts last := by
  refine ⟨⟨h.decoded, h.verified, by simp [Scan.begun], by simp [Scan.begun], h.ids, h.objects⟩,
    Nat.zero_add _, fun l hl => ?_, ?_, h.trailer⟩
  · have hline := h.lines l (List.mem_cons_of_mem _ hl)
    exact ⟨hline.2, hline.1.getLast?⟩
  · have := h.size
    rw [h.parts, List.append_assoc, List.length_append] at this
    exact this

/-- `verify_archive` accepts a file exactly when it is one header line, the lines of so many distinct
and verified receipts, one trailer line that fits, and nothing more. -/
theorem verifyArchive_ok_iff {pubkey : String} {v : ArchiveVerification} :
    verifyArchive F file pubkey = .ok v ↔
      ∃ publicKey target first receipts last, F.publicKey pubkey = some publicKey ∧
        Wellformed F publicKey file target first receipts last ∧
        v = verificationOf F file receipts.length := by
  constructor
  · intro h
    rw [verifyArchive] at h
    rcases hkey : F.publicKey pubkey with _ | publicKey
    · simp [hkey] at h
    simp only [hkey, Result.check_ok_iff, refuse_ok_iff, decide_eq_false_iff_not, not_lt,
      gt_iff_lt] at h
    obtain ⟨hsize, h⟩ := h
    obtain ⟨scan, hscan, h⟩ := Result.bind_ok_iff.1 h
    simp only [Result.check_ok_iff, refuse_ok_iff, Bool.not_eq_false', bne_eq_false_iff_eq,
      Except.ok.injEq] at h
    obtain ⟨htrailer, -, rfl⟩ := h
    obtain ⟨lines, rfl, hlines, hfold⟩ := (scanLines_ok_iff (Nat.lt_succ_self _)).1 hscan
    cases lines with
    | nil =>
      cases hfold
      cases htrailer
    | cons first lines =>
      rw [List.foldlM_cons] at hfold
      obtain ⟨scan₁, hstep, hfold⟩ := Result.bind_ok_iff.1 hfold
      obtain ⟨target, count, at_, hdecode, hcount, hpinned, hagent, hid, hlength, rfl⟩ :=
        Scan.step_first hstep
      obtain ⟨receipts, last, rfl, hbody, -, hfull, hseen, htotal, -⟩ :=
        Scan.body_of_foldlM (show (Scan.begun target count first).target = some target from rfl) rfl hfold htrailer
      have hexpected : count = receipts.length := by
        have := hbody.expected
        simp only [Scan.begun, Nat.zero_add] at this
        exact this.symm
      subst hexpected
      have hflat : (first :: (receipts.map (·.1) ++ [last])).flatten =
          first ++ textOf receipts ++ last := by
        simp [textOf]
      refine ⟨publicKey, target, first, receipts, last, rfl, ?_, ?_⟩
      · refine ⟨hflat, hsize, fun l hl => ⟨hlines l hl, ?_⟩, ⟨at_, hdecode⟩, hcount,
          ⟨hpinned, hagent, hid⟩, hbody.taken.decoded, hbody.taken.verified, hbody.taken.ids,
          hbody.taken.objects, hbody.closed⟩
        rcases List.mem_cons.1 hl with rfl | hl
        · exact hlength
        · exact (hbody.short l hl).1
      · rw [hfull, hseen, htotal, verificationOf]
        simp [Scan.begun]
  · rintro ⟨publicKey, target, first, receipts, last, hkey, h, rfl⟩
    obtain ⟨at_, hheader⟩ := h.header
    have hline := h.lines first (by simp)
    obtain ⟨scan, hfold, htrailer, hfull, hseen, htotal, -⟩ :=
      Scan.foldlM_of_body publicKey rfl rfl h.body
    have hstep : ({} : Scan).step F publicKey first = .ok (.begun target receipts.length first) := by
      have hroom : first.length ≤ maxExport := by
        have := h.size
        rw [h.parts, List.length_append, List.length_append] at this
        omega
      refine Scan.step_ok_iff.2 ⟨⟨hline.2, hline.1.getLast?, by simpa using hroom, rfl⟩, .inl
        ⟨_, target, _, at_, hheader, rfl, rfl, Scan.header_ok_iff.2
          ⟨⟨rfl, h.count, h.pinned.1, h.pinned.2.1, h.pinned.2.2⟩, ?_⟩⟩⟩
      simp [Scan.begun, Scan.count]
    have hfile : file = (first :: (receipts.map (·.1) ++ [last])).flatten := by
      rw [h.parts]
      simp [textOf]
    have hscan : scanLines F publicKey (file.length + 1) {} file = .ok scan := by
      refine (scanLines_ok_iff (Nat.lt_succ_self _)).2 ⟨_, hfile, fun l hl => (h.lines l hl).1, ?_⟩
      rw [List.foldlM_cons]
      exact Result.bind_ok_iff.2 ⟨_, hstep, hfold⟩
    have hall : first ++ (textOf receipts ++ last) = file := by
      rw [h.parts, List.append_assoc]
    have hfull' : scan.full = file := hfull.trans hall
    have hsize' : scan.size = file.length := by
      rw [htotal, ← hall]
      simp [Scan.begun]
    simp only [verifyArchive, hkey, Result.check_ok_iff, refuse_ok_iff, decide_eq_false_iff_not,
      not_lt, gt_iff_lt]
    refine ⟨h.size, Result.bind_ok_iff.2 ⟨scan, hscan, ?_⟩⟩
    simp only [Result.check_ok_iff, refuse_ok_iff, Bool.not_eq_false', bne_eq_false_iff_eq]
    refine ⟨htrailer, hsize', ?_⟩
    rw [hfull', hsize', hseen]
    rfl

/-- The lines of a well-formed file. -/
theorem Wellformed.flatten (h : Wellformed F publicKey file target first receipts last) :
    file = (first :: receipts.map (·.1) ++ [last]).flatten := by
  rw [h.parts]
  simp [textOf]

/-- The only line that is read as a trailer is the last one. -/
theorem Wellformed.trailer_eq (h : Wellformed F publicKey file target first receipts last)
    {l : Bytes} (hl : l ∈ first :: receipts.map (·.1) ++ [last]) {count : Nat} {hash : String}
    (hdecode : F.archive.decode l = some (.trailer count hash)) : l = last := by
  obtain ⟨at_, hheader⟩ := h.header
  rw [List.mem_append, List.mem_cons, List.mem_map, List.mem_singleton] at hl
  rcases hl with (rfl | ⟨p, hp, rfl⟩) | rfl
  · rw [hheader] at hdecode
    cases hdecode
  · rw [h.decoded p hp] at hdecode
    cases hdecode
  · rfl

/-! ## Changed files -/

/-- A text begins with one line only. -/
theorem line_unique {l m x y : Bytes} (hl : IsLine l) (hm : IsLine m) (h : l ++ x = m ++ y) :
    l = m ∧ x = y := by
  have hleft := readLine_line x hl (Nat.le_add_right l.length m.length)
  have hright := readLine_line y hm (Nat.le_add_left m.length l.length)
  rw [h, hright] at hleft
  simp only [Prod.mk.injEq] at hleft
  exact ⟨hleft.1.symm, hleft.2.symm⟩

/-- The lines at the front of a text are the first lines of all of it. -/
theorem lines_prefix {lines lines' : List Bytes} (rest : Bytes) (hlines : ∀ l ∈ lines, IsLine l)
    (hlines' : ∀ l ∈ lines', IsLine l) (h : lines.flatten ++ rest = lines'.flatten) :
    ∃ more, lines' = lines ++ more ∧ rest = more.flatten := by
  induction lines generalizing lines' with
  | nil => exact ⟨lines', rfl, by simpa using h⟩
  | cons l lines ih =>
    have hl := hlines l List.mem_cons_self
    cases lines' with
    | nil => exact (hl.ne_nil (by simpa using h : l = [] ∧ _).1).elim
    | cons m lines' =>
      rw [List.flatten_cons, List.flatten_cons, List.append_assoc] at h
      obtain ⟨rfl, htail⟩ := line_unique hl (hlines' m List.mem_cons_self) h
      obtain ⟨more, rfl, hrest⟩ := ih (fun l hl => hlines l (List.mem_cons_of_mem _ hl))
        (fun l hl => hlines' l (List.mem_cons_of_mem _ hl)) htail
      exact ⟨more, rfl, hrest⟩

/-- A text has one division into lines. -/
theorem lines_unique {lines lines' : List Bytes} (hlines : ∀ l ∈ lines, IsLine l)
    (hlines' : ∀ l ∈ lines', IsLine l) (h : lines.flatten = lines'.flatten) : lines = lines' := by
  obtain ⟨more, rfl, hnil⟩ := lines_prefix [] hlines hlines' (by rw [List.append_nil, h])
  cases more with
  | nil => rw [List.append_nil]
  | cons l more =>
    have hl := (hlines' l (by simp)).ne_nil
    simp only [List.flatten_cons, List.nil_eq, List.append_eq_nil_iff] at hnil
    exact (hl hnil.1).elim

/-- No accepted file goes on where another ends. -/
theorem accepted_extension {pubkey pubkey' : String} {rest : Bytes} {v v' : ArchiveVerification}
    (h : verifyArchive F file pubkey = .ok v)
    (h' : verifyArchive F (file ++ rest) pubkey' = .ok v') : rest = [] := by
  obtain ⟨_, _, first, receipts, last, -, hfile, -⟩ := verifyArchive_ok_iff.1 h
  obtain ⟨_, _, first', receipts', last', -, hfile', -⟩ := verifyArchive_ok_iff.1 h'
  have hflatten := hfile'.flatten
  rw [hfile.flatten] at hflatten
  obtain ⟨more, hmore, hrest⟩ := lines_prefix _ (fun l hl => (hfile.lines l hl).1)
    (fun l hl => (hfile'.lines l hl).1) hflatten
  -- The trailer of the shorter file is a line of the longer one, and so it is its last line too.
  have hlast : last = last' := hfile'.trailer_eq
    (by rw [hmore]; simp) hfile.trailer
  cases more with
  | nil => exact hrest
  | cons m more =>
    have hlength : receipts.length = receipts'.length := by
      have h1 := hfile.trailer
      rw [hlast, hfile'.trailer] at h1
      simp only [Option.some.injEq, Record.trailer.injEq] at h1
      exact h1.1.symm
    have hcount := congrArg List.length hmore
    simp only [List.length_append, List.length_cons, List.length_map, List.length_nil] at hcount
    omega

/-- The lines of an accepted file make no other accepted file, unless what stands before the trailers
of the two has the same hash. -/
theorem accepted_lines {pubkey pubkey' : String} {lines lines' : List Bytes}
    {v v' : ArchiveVerification} (hlines : ∀ l ∈ lines, IsLine l) (hsubset : lines' ⊆ lines)
    (hno : F.sha256 lines'.dropLast.flatten = F.sha256 lines.dropLast.flatten →
      lines'.dropLast.flatten = lines.dropLast.flatten)
    (h : verifyArchive F lines.flatten pubkey = .ok v)
    (h' : verifyArchive F lines'.flatten pubkey' = .ok v') : lines' = lines := by
  have hlines' : ∀ l ∈ lines', IsLine l := fun l hl => hlines l (hsubset hl)
  obtain ⟨_, _, first, receipts, last, -, hfile, -⟩ := verifyArchive_ok_iff.1 h
  obtain ⟨_, _, first', receipts', last', -, hfile', -⟩ := verifyArchive_ok_iff.1 h'
  obtain rfl := lines_unique hlines (fun l hl => (hfile.lines l hl).1) hfile.flatten
  obtain rfl := lines_unique hlines' (fun l hl => (hfile'.lines l hl).1) hfile'.flatten
  have hlast : last' = last := hfile.trailer_eq (hsubset (by simp)) hfile'.trailer
  subst hlast
  have htrailer := hfile'.trailer
  rw [hfile.trailer] at htrailer
  simp only [Option.some.injEq, Record.trailer.injEq] at htrailer
  have hdrop : ∀ (a b : Bytes) (rs : List (Bytes × QueueItem)),
      (a :: rs.map (·.1) ++ [b]).dropLast = a :: rs.map (·.1) := fun a b rs =>
    List.dropLast_concat
  rw [hdrop, hdrop] at hno
  have hcontent := hno htrailer.2.symm
  have hsame := lines_unique (fun l hl => hlines' l (List.mem_append_left _ hl))
    (fun l hl => hlines l (List.mem_append_left _ hl)) hcontent
  rw [hsame]

end Accepted

end Argos.Queue
