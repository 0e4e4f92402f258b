import Argos.Vault.Bundles
import Argos.Vault.Sample
import Argos.Lib.Pieces

/-!
# Splitting a file and putting it together

`prepare` of `bundle/client.rs` cuts a file into chunks of 16 MiB and stages each of them under its
hash, a repeated chunk once. The chunks are put together in two places: `complete_unlocked` of the
server reads them to check the bundle (`readChunks`), and `fetch` of the client writes them to the
recovered file. `split_reassembly` shows that all three agree on the order, the sizes and the last
chunk, and that the sizes that `validate` accepts are those of `prepare` and no others.

What the calls meet outside the program is an argument: whether each access to the filesystem or to
the server succeeds, the content that the reads of the source return, and the answers of the server.
-/

namespace Argos.Vault

open Argos.Lib

/-! ## `prepare` -/

/-- The accesses of `prepare` that can fail. -/
inductive PrepareStep where
  | statPath
  | openSource
  | statSource
  | randomId
  | makeStage
  | makeChunks
  | read (i : Nat)
  | writeChunk (i : Nat)
  | statAfter
  | statPathAfter
  | writeManifest
deriving DecidableEq, Repr

/-- What `prepare` meets outside. -/
structure Preparation where
  io : PrepareStep → Result Unit
  /-- The path is a symbolic link. -/
  symlink : Bool
  /-- The opened file is the one at the path. -/
  sameBefore : Bool
  /-- The size of the opened file. -/
  size : Nat
  /-- What the reads return, up to the end of the file. -/
  content : Bytes
  /-- The random identifier, in hexadecimal. -/
  random : String
  now : Nat
  metadata : BundleMetadata
  /-- The opened file, the path, and the kind of the path, looked at again after the reads. -/
  sameAfter : Bool
  samePathAfter : Bool
  symlinkAfter : Bool

/-- The chunk that a manifest lists for a body. -/
def chunkOf (P : Primitives) (body : Bytes) : Chunk := ⟨P.sha256 body, body.length⟩

/-- The variables of the loop of `prepare`: what was hashed and counted, the files in the directory
of chunks by their hashes, and the list for the manifest. -/
structure Staging where
  full : Bytes
  total : Nat
  files : Map String Bytes
  chunks : List Chunk

section Prepare

variable (P : Primitives) (e : Preparation)

/-- The file of a chunk: written unless there is one of its hash. -/
def stageFile (s : Staging) (hash : String) (bytes : Bytes) : Result (Map String Bytes) :=
  if hash ∈ s.files then .ok s.files else do
    e.io (.writeChunk s.chunks.length)
    .ok (s.files.insert hash bytes)

/-- One turn of the loop, with the bytes that were read. -/
def stageChunk (s : Staging) (bytes : Bytes) : Result Staging :=
  match checkedAdd s.total bytes.length with
  | none => .error (.message "번들 크기 초과")
  | some total => do
    refuse (total > maxBundleBytes || total > e.size) "입력이 읽는 중 커졌습니다"
    let hash := P.sha256 bytes
    let files ← stageFile e s hash bytes
    .ok ⟨s.full ++ bytes, total, files, s.chunks ++ [⟨hash, bytes.length⟩]⟩

/-- The loop of `prepare` over what is left of the input. -/
def stageAll (input : Bytes) (s : Staging) : Result Staging := do
  e.io (.read s.chunks.length)
  if _h : input.take chunkBytes = [] then .ok s
  else do
    let s ← stageChunk P e s (input.take chunkBytes)
    stageAll (input.drop chunkBytes) s
termination_by input.length
decreasing_by
  have hne : input ≠ [] := fun h => _h (by rw [h, List.take_nil])
  have hpos := List.length_pos_iff.2 hne
  have hchunk : 0 < chunkBytes := by decide
  rw [List.length_drop]
  omega

/-- The manifest of a preparation before the input is read. -/
def firstManifest : BundleManifest where
  format := "argos-recovery-bundle-v1"
  bundleId := e.random
  createdAtMs := e.now
  metadata := e.metadata
  sha256 := String.ofList (List.replicate 64 '0')
  sizeBytes := e.size
  chunks := [⟨String.ofList (List.replicate 64 '0'), 1⟩]

/-- `prepare`: the manifest, and the files in the directory of chunks. -/
def prepare : Result (BundleManifest × Map String Bytes) := do
  e.io .statPath
  refuse e.symlink "입력 symlink 거부"
  e.io .openSource
  e.io .statSource
  refuse (!e.sameBefore || e.size == 0 || e.size > maxBundleBytes)
    "번들 입력 신원/크기 오류(1바이트~1GiB)"
  e.io .randomId
  refuse ((P.manifest.encode (firstManifest e)).length > maxManifestBytes ||
    e.metadata.recoveryPlan.any (fun plan => plan.utf8ByteSize > 65536) ||
    e.metadata.originalPath.toList.head? != some '/') "번들 메타데이터 오류"
  e.io .makeStage
  e.io .makeChunks
  let s ← stageAll P e e.content ⟨[], 0, ∅, []⟩
  e.io .statAfter
  e.io .statPathAfter
  refuse (s.total != e.size || !e.sameAfter || !e.samePathAfter || e.symlinkAfter)
    "읽는 동안 입력 파일/경로 변경"
  let manifest := { firstManifest e with sha256 := P.sha256 s.full, chunks := s.chunks }
  validate P manifest
  e.io .writeManifest
  .ok (manifest, s.files)

end Prepare

/-! ## `fetch` -/

/-- The accesses of `fetch` that can fail, apart from the requests. -/
inductive FetchStep where
  | parent
  | randomName
  | openTemporary
  | connection
  | token
  | write (i : Nat)
  | sync
  | link
  | unlink
  | syncDirectory
deriving DecidableEq, Repr

/-- What `fetch` meets outside. The receipts that the server answers with are those that the client has
read within its limit and parsed. -/
structure Fetching where
  io : FetchStep → Result Unit
  /-- Something is at the destination already. -/
  taken : Bool
  /-- The record, before and after the transfer. -/
  record : Result BundleRecord
  latest : Result BundleRecord
  /-- The answers for the `i`-th chunk. -/
  receipt : Nat → Result SignedReceipt
  object : Nat → Result Bytes

section Fetch

variable (P : Primitives) (pinned keyId agent : String) (e : Fetching)

/-- `read_response`: an answer that was received, up to a limit. -/
def readResponse (answer : Result Bytes) (maximum : Nat) : Result Bytes := do
  let bytes ← answer
  if bytes.length > maximum then .error .external else .ok bytes

/-- One turn of the loop of `fetch`: the body of the `i`-th chunk. -/
def fetchChunk (i : Nat) (chunk : Chunk) : Result Bytes := do
  let receipt ← e.receipt i
  verifyReceipt P receipt pinned
  refuse (receipt.receipt.agentId != agent || receipt.receipt.keyId != keyId ||
    receipt.receipt.kind != "backup" || receipt.receipt.sha256 != chunk.sha256 ||
    receipt.receipt.sizeBytes != chunk.sizeBytes) "청크 수신증명 불일치"
  let bytes ← readResponse (e.object i) chunkBytes
  verifyBody P bytes receipt
  e.io (.write i)
  .ok bytes

/-- The loop of `fetch`, from the `i`-th chunk on: what is written, and how much it is. -/
def fetchChunks : List Chunk → Nat → Bytes → Nat → Result (Bytes × Nat)
  | [], _, out, total => .ok (out, total)
  | chunk :: rest, i, out, total => do
    let bytes ← fetchChunk P pinned keyId agent e i chunk
    fetchChunks rest (i + 1) (out ++ bytes) (total + bytes.length)

/-- The transfer of `fetch`: the content of the recovered file. -/
def transfer (manifest : BundleManifest) : Result Bytes := do
  e.io .connection
  e.io .token
  let (out, total) ← fetchChunks P pinned keyId agent e manifest.chunks 0 [] 0
  refuse (total != manifest.sizeBytes || P.sha256 out != manifest.sha256)
    "재조립 전체 해시/크기 불일치"
  .ok out

/-- `fetch`: the record, and the content of the new file. -/
def fetch (evidenceOnly : Bool) : Result (BundleRecord × Bytes) := do
  let record ← e.record
  refuse (record.completion.isNone || (!evidenceOnly && !record.recommended))
    "완료된 원격 정상 판정이 없어 복구를 보류합니다"
  e.io .parent
  refuse e.taken "복구 파일은 새 경로여야 합니다"
  e.io .randomName
  e.io .openTemporary
  let out ← transfer P pinned keyId agent e record.manifest
  let latest ← e.latest
  refuse (latest.manifest != record.manifest || latest.completion != record.completion ||
    (!evidenceOnly && !latest.recommended)) "복구 전송 중 정상 판정/완료 상태 변경"
  e.io .sync
  e.io .link
  e.io .unlink
  e.io .syncDirectory
  .ok (latest, out)

end Fetch

/-! ## What the loop of `prepare` leaves -/

theorem chunkBytes_pos : 0 < chunkBytes := by decide

/-- A turn of the loop appends what was read, and keeps a file of its hash. -/
theorem stageChunk_ok {P : Primitives} {e : Preparation} {s s' : Staging} {bytes : Bytes}
    (h : stageChunk P e s bytes = .ok s') :
    s'.full = s.full ++ bytes ∧ s'.total = s.total + bytes.length ∧
      s'.chunks = s.chunks ++ [chunkOf P bytes] ∧
      s'.files = if P.sha256 bytes ∈ s.files then s.files
        else s.files.insert (P.sha256 bytes) bytes := by
  unfold stageChunk at h
  rcases hadd : checkedAdd s.total bytes.length with _ | total <;> rw [hadd] at h
  · cases h
  obtain ⟨-, rfl⟩ := CapacityState.checkedAdd_eq_some_iff.1 hadd
  obtain ⟨-, h⟩ := Result.check_ok_iff.1 h
  obtain ⟨files, hfiles, h⟩ := Result.bind_ok_iff.1 h
  rw [Except.ok.injEq] at h
  rw [← h]
  refine ⟨rfl, rfl, rfl, ?_⟩
  unfold stageFile at hfiles
  split_ifs at hfiles ⊢ with hmem
  · exact (Except.ok.inj hfiles).symm
  · obtain ⟨-, hfiles⟩ := Result.check_ok_iff.1 hfiles
    exact (Except.ok.inj hfiles).symm

/-- The files that were staged for some bodies: each is one of them, under its hash, and each of them
has a file. -/
structure Files (P : Primitives) (files : Map String Bytes) (bodies : List Bytes) : Prop where
  sound : ∀ hash body, files.lookup hash = some body → body ∈ bodies ∧ hash = P.sha256 body
  complete : ∀ body ∈ bodies, P.sha256 body ∈ files

theorem Files.add {P : Primitives} {files : Map String Bytes} {bodies : List Bytes}
    (h : Files P files bodies) (body : Bytes) :
    Files P (if P.sha256 body ∈ files then files else files.insert (P.sha256 body) body)
      (bodies ++ [body]) := by
  split_ifs with hmem
  · -- a repeated chunk, stored once
    refine ⟨fun hash b hb => ?_, fun b hb => ?_⟩
    · obtain ⟨hin, heq⟩ := h.sound hash b hb
      exact ⟨List.mem_append_left _ hin, heq⟩
    · obtain hb | hb := List.mem_append.1 hb
      · exact h.complete b hb
      · rwa [List.mem_singleton.1 hb]
  · refine ⟨fun hash b hb => ?_, fun b hb => ?_⟩
    · by_cases heq : hash = P.sha256 body
      · rw [heq, AList.lookup_insert, Option.some.injEq] at hb
        exact ⟨List.mem_append_right _ (by simp [hb]), hb ▸ heq⟩
      · rw [AList.lookup_insert_ne heq] at hb
        obtain ⟨hin, heq⟩ := h.sound hash b hb
        exact ⟨List.mem_append_left _ hin, heq⟩
    · rw [AList.mem_insert]
      obtain hb | hb := List.mem_append.1 hb
      · exact .inr (h.complete b hb)
      · exact .inl (by rw [List.mem_singleton.1 hb])

/-- What the loop leaves: the pieces of the input are appended to all that it keeps. -/
theorem stageAll_ok {P : Primitives} {e : Preparation} (input : Bytes) :
    ∀ {s s' : Staging} {bodies : List Bytes}, stageAll P e input s = .ok s' →
      Files P s.files bodies →
      s'.full = s.full ++ input ∧ s'.total = s.total + input.length ∧
        s'.chunks = s.chunks ++ (pieces chunkBytes input).map (chunkOf P) ∧
        Files P s'.files (bodies ++ pieces chunkBytes input) := by
  induction input using pieces_induction chunkBytes_pos with
  | nil =>
    intro s s' bodies h hfiles
    rw [stageAll] at h
    obtain ⟨-, h⟩ := Result.check_ok_iff.1 h
    rw [dif_pos List.take_nil, Except.ok.injEq] at h
    rw [← h]
    simpa using hfiles
  | step input hne ih =>
    intro s s' bodies h hfiles
    have htake : input.take chunkBytes ≠ [] := by
      rw [ne_eq, List.take_eq_nil_iff, not_or]
      exact ⟨chunkBytes_pos.ne', hne⟩
    rw [stageAll] at h
    obtain ⟨-, h⟩ := Result.check_ok_iff.1 h
    rw [dif_neg htake] at h
    obtain ⟨s₁, hturn, h⟩ := Result.bind_ok_iff.1 h
    obtain ⟨hfull, htotal, hchunks, hfiles₁⟩ := stageChunk_ok hturn
    obtain ⟨hfull', htotal', hchunks', hfiles'⟩ :=
      ih h (hfiles₁ ▸ hfiles.add (input.take chunkBytes))
    rw [pieces_eq chunkBytes_pos hne]
    refine ⟨?_, ?_, ?_, ?_⟩
    · rw [hfull', hfull, List.append_assoc, List.take_append_drop]
    · have hlength := congrArg List.length (List.take_append_drop chunkBytes input)
      rw [List.length_append] at hlength
      omega
    · rw [hchunks', hchunks, List.append_assoc]
      rfl
    · rwa [List.append_assoc] at hfiles'

/-- What `prepare` leaves: a manifest that `validate` accepts, about the input and its pieces, and the
files of the pieces. -/
theorem prepare_ok {P : Primitives} {e : Preparation} {m : BundleManifest} {files : Map String Bytes}
    (h : prepare P e = .ok (m, files)) :
    validate P m = .ok () ∧ m.sizeBytes = e.content.length ∧ m.sha256 = P.sha256 e.content ∧
      m.chunks = (pieces chunkBytes e.content).map (chunkOf P) ∧
      Files P files (pieces chunkBytes e.content) := by
  unfold prepare at h
  simp only [Result.bind_ok_iff, exists_unit_iff, refuse_ok_iff] at h
  obtain ⟨-, -, -, -, -, -, -, -, -, s, hall, -, -, hsame, hvalid, -, hout⟩ := h
  rw [Except.ok.injEq, Prod.mk.injEq] at hout
  obtain ⟨rfl, rfl⟩ := hout
  have hnone : Files P ∅ [] := ⟨(fun _ _ h => by cases h), (fun _ h => by cases h)⟩
  obtain ⟨hfull, htotal, hchunks, hfiles⟩ := stageAll_ok e.content hall hnone
  simp only [List.nil_append, Nat.zero_add] at hfull htotal hchunks hfiles
  simp only [Bool.or_eq_false_iff, bne_eq_false_iff_eq] at hsame
  exact ⟨hvalid, hsame.1.1.1.symm.trans htotal, by rw [hfull], hchunks, hfiles⟩

/-- Where no two bodies collide, each is the file of its hash. -/
theorem Files.lookup {P : Primitives} {files : Map String Bytes} {bodies : List Bytes}
    (h : Files P files bodies) (hinj : Set.InjOn P.sha256 {b | b ∈ bodies}) {body : Bytes}
    (hbody : body ∈ bodies) : files.lookup (P.sha256 body) = some body := by
  obtain ⟨found, hfound⟩ :=
    Option.isSome_iff_exists.1 (AList.lookup_isSome.2 (h.complete body hbody))
  obtain ⟨hin, heq⟩ := h.sound _ found hfound
  rw [hfound, hinj hbody hin heq]

/-! ## Putting the chunks together -/

/-- The server answers for the chunk `chunk`, the `i`-th one, with the body `body` and a receipt for
it. -/
def Answers (P : Primitives) (pinned keyId agent : String) (e : Fetching) (i : Nat) (chunk : Chunk)
    (body : Bytes) : Prop :=
  e.object i = .ok body ∧ e.io (.write i) = .ok () ∧ ∃ receipt, e.receipt i = .ok receipt ∧
    verifyReceipt P receipt pinned = .ok () ∧ receipt.receipt.agentId = agent ∧
    receipt.receipt.keyId = keyId ∧ receipt.receipt.kind = "backup" ∧
    receipt.receipt.sha256 = chunk.sha256 ∧ receipt.receipt.sizeBytes = chunk.sizeBytes

/-- The loop of `fetch` over bodies that are answered in order. -/
theorem fetchChunks_eq {P : Primitives} {pinned keyId agent : String} {e : Fetching}
    (bodies : List Bytes) :
    ∀ {i : Nat} {out : Bytes} {total : Nat},
      (∀ j body, bodies[j]? = some body → body.length ≤ chunkBytes ∧
        Answers P pinned keyId agent e (i + j) (chunkOf P body) body) →
      fetchChunks P pinned keyId agent e (bodies.map (chunkOf P)) i out total =
        .ok (out ++ bodies.flatten, total + bodies.flatten.length) := by
  induction bodies with
  | nil =>
    intro i out total _
    simp [fetchChunks]
  | cons body rest ih =>
    intro i out total h
    obtain ⟨hlength, hobject, hwrite, receipt, hreceipt, hverified, ha, hk, hkind, hhash, hsize⟩ :=
      h 0 body rfl
    rw [Nat.add_zero] at hobject hwrite hreceipt
    have hread : readResponse (e.object i) chunkBytes = .ok body := by
      rw [hobject]
      exact if_neg (by omega)
    have hbody : fetchChunk P pinned keyId agent e i (chunkOf P body) = .ok body := by
      simp only [fetchChunk, Result.bind_ok_iff, exists_unit_iff, refuse_ok_iff,
        verifyBody_ok_iff]
      refine ⟨receipt, hreceipt, hverified, ?_, body, hread, ⟨hsize, hhash⟩, hwrite, rfl⟩
      simp [ha, hk, hkind, hhash, hsize]
    have hrest := @ih (i + 1) (out ++ body) (total + body.length) (by
      intro j b hb
      have hnext := h (j + 1) b hb
      have hindex : i + (j + 1) = i + 1 + j := by omega
      rwa [hindex] at hnext)
    rw [List.map_cons, fetchChunks, hbody]
    show fetchChunks P pinned keyId agent e _ _ _ _ = _
    rw [hrest, List.flatten_cons, List.length_append, List.append_assoc, Nat.add_assoc]

/-- The loop of `complete_unlocked` over bodies that are stored, in a directory that is left alone. -/
theorem readChunks_eq {P : Primitives} {cfg : ServerConfig} {d : Disk} {agent : String}
    (bodies : List Bytes) :
    ∀ {i : Nat}, (∀ body ∈ bodies, ∃ receipt,
        Stored P cfg d (min cfg.maxObjectBytes chunkBytes) agent (P.sha256 body) receipt body ∧
          receipt.receipt.kind = "backup") →
      ∃ stamps, readChunks P cfg (fun _ => .still d) agent (bodies.map (chunkOf P)) i =
        .ok (bodies.flatten, stamps) := by
  induction bodies with
  | nil => exact fun _ => ⟨[], rfl⟩
  | cons body rest ih =>
    intro i h
    obtain ⟨receipt, hstored, hkind⟩ := h body List.mem_cons_self
    obtain ⟨raw, hraw, -, -⟩ := hstored.file
    obtain ⟨stamps, hrest⟩ := @ih (i + 1) (fun b hb => h b (List.mem_cons_of_mem _ hb))
    have hbody : ∃ stamps, readChunk P cfg (.still d) agent (chunkOf P body) =
        .ok (body, stamps) := by
      have hstamps : checkStamps d [⟨.blob agent (P.sha256 body), ⟨body, false⟩⟩,
          ⟨.receipt agent (P.sha256 body), ⟨raw, false⟩⟩] = .ok () := by
        simp [checkStamps, FileStamp.unchanged, FileStamp.read, hstored.blob, hraw,
          Result.bind_ok_iff]
      simp only [readChunk, Look.still, chunkOf, FileStamp.read, hstored.blob, hraw,
        Result.bind_ok_iff, exists_unit_iff, refuse_ok_iff]
      refine ⟨_, _, rfl, _, rfl, (receipt, body), Disk.getWithin_ok_iff.2 hstored, ?_, hstamps, rfl⟩
      simp [hkind]
    obtain ⟨stamp, hbody⟩ := hbody
    refine ⟨stamp ++ stamps, ?_⟩
    rw [List.map_cons, readChunks, hbody]
    show (readChunks P cfg (fun _ => .still d) agent _ (i + 1) >>= _) = _
    rw [hrest]
    rfl

/-! ## The sizes that `validate` accepts -/

/-- The sizes of chunks that pass the loop of `validate`: all full but the last. -/
theorem checkChunks_sizes (chunks : List Chunk) :
    ∀ {total sum : Nat}, chunks ≠ [] → checkChunks chunks total = .ok sum →
      ∃ k last, chunks.map (·.sizeBytes) = List.replicate k chunkBytes ++ [last] ∧ 0 < last ∧
        last ≤ chunkBytes ∧ sum = total + (k * chunkBytes + last) := by
  induction chunks with
  | nil => exact fun h => absurd rfl h
  | cons chunk rest ih =>
    intro total sum _ h
    rw [checkChunks] at h
    obtain ⟨hgood, h⟩ := Result.check_ok_iff.1 h
    simp only [refuse_ok_iff, Bool.or_eq_false_iff, Bool.and_eq_false_iff, beq_eq_false_iff_ne,
      decide_eq_false_iff_not, not_lt, gt_iff_lt, bne_eq_false_iff_eq, Bool.not_eq_false'] at hgood
    obtain ⟨⟨⟨-, hzero⟩, hle⟩, hfull⟩ := hgood
    rcases hadd : checkedAdd total chunk.sizeBytes with _ | total' <;> rw [hadd] at h
    · cases h
    obtain ⟨-, rfl⟩ := CapacityState.checkedAdd_eq_some_iff.1 hadd
    by_cases hrest : rest = []
    · subst hrest
      simp only [checkChunks, Except.ok.injEq] at h
      exact ⟨0, chunk.sizeBytes, rfl, by omega, hle, by omega⟩
    · obtain ⟨k, last, hmap, hpos, hlast, hsum⟩ := ih hrest h
      have hchunk : chunk.sizeBytes = chunkBytes := by
        obtain hempty | heq := hfull
        · exact absurd (List.isEmpty_iff.1 hempty) hrest
        · exact heq
      refine ⟨k + 1, last, ?_, hpos, hlast, ?_⟩
      · rw [List.map_cons, hmap, hchunk]
        rfl
      · rw [hsum, hchunk]
        ring

/-- `validate` accepts the canonical sizes of the size in the manifest and no others. -/
theorem validate_sizes {P : Primitives} {m : BundleManifest} (h : validate P m = .ok ()) :
    m.chunks.map (·.sizeBytes) = sizes chunkBytes m.sizeBytes := by
  simp only [validate, Result.bind_ok_iff, exists_unit_iff, refuse_ok_iff] at h
  obtain ⟨hfields, sum, hsum, hsize⟩ := h
  simp only [Bool.or_eq_false_iff] at hfields
  obtain ⟨⟨⟨-, hsome⟩, -⟩, -⟩ := hfields
  have hne : m.chunks ≠ [] := by
    rw [← List.isEmpty_eq_false_iff]
    exact hsome
  obtain ⟨k, last, hmap, hpos, hle, htotal⟩ := checkChunks_sizes m.chunks hne hsum
  rw [bne_eq_false_iff_eq] at hsize
  rw [hmap, ← hsize, htotal, Nat.zero_add, sizes_eq hpos hle]

/-- The loop of `validate` passes full chunks and a last one, while their sum fits. -/
theorem checkChunks_eq (chunks : List Chunk) :
    ∀ {total k last : Nat}, (∀ chunk ∈ chunks, validHash chunk.sha256) →
      chunks.map (·.sizeBytes) = List.replicate k chunkBytes ++ [last] → 0 < last →
      last ≤ chunkBytes → total + (k * chunkBytes + last) ≤ u64Max →
        checkChunks chunks total = .ok (total + (k * chunkBytes + last)) := by
  induction chunks with
  | nil =>
    intro total k last _ hmap
    simp at hmap
  | cons chunk rest ih =>
    intro total k last hhash hmap hpos hle hfits
    have hvalid := hhash chunk List.mem_cons_self
    have hrest : ∀ c ∈ rest, validHash c.sha256 := fun c hc => hhash c (List.mem_cons_of_mem _ hc)
    rw [checkChunks]
    cases k with
    | zero =>
      -- the last chunk
      simp only [List.map_cons, List.replicate_zero, List.nil_append, List.cons.injEq,
        List.map_eq_nil_iff] at hmap
      obtain ⟨hsize, rfl⟩ := hmap
      have hadd : checkedAdd total chunk.sizeBytes = some (total + (0 * chunkBytes + last)) :=
        CapacityState.checkedAdd_eq_some_iff.2 ⟨by omega, by omega⟩
      have hgood : refuse (!validHash chunk.sha256 || chunk.sizeBytes == 0 ||
          chunk.sizeBytes > chunkBytes || (!List.isEmpty ([] : List Chunk) &&
            chunk.sizeBytes != chunkBytes)) "번들 청크 크기/해시 오류" = .ok () := by
        rw [refuse_ok_iff, hvalid, hsize]
        simp; omega
      rw [hgood, hadd]
      rfl
    | succ k =>
      simp only [List.map_cons, List.replicate_succ, List.cons_append, List.cons.injEq] at hmap
      obtain ⟨hsize, hmap⟩ := hmap
      have hchunk : chunkBytes ≠ 0 := chunkBytes_pos.ne'
      have hsplit : (k + 1) * chunkBytes + last = chunkBytes + (k * chunkBytes + last) := by ring
      have hadd : checkedAdd total chunk.sizeBytes = some (total + chunkBytes) :=
        CapacityState.checkedAdd_eq_some_iff.2 ⟨by omega, by rw [hsize]⟩
      have hgood : refuse (!validHash chunk.sha256 || chunk.sizeBytes == 0 ||
          chunk.sizeBytes > chunkBytes || (!rest.isEmpty && chunk.sizeBytes != chunkBytes))
            "번들 청크 크기/해시 오류" = .ok () := by
        rw [refuse_ok_iff, hvalid, hsize]
        simp [hchunk]
      rw [hgood, hadd]
      show checkChunks rest (total + chunkBytes) = _
      rw [ih hrest hmap hpos hle (by omega), hsplit, Nat.add_assoc]

/-! ## Splitting and putting together -/

/-- The chunk list of any content of 1 byte to 1 GiB passes the loop of `validate`, and its limit on
the number of chunks. -/
theorem checkChunks_pieces {P : Primitives} (hhash : ∀ bytes, validHash (P.sha256 bytes))
    {content : Bytes} (hne : content ≠ []) (hmax : content.length ≤ maxBundleBytes) :
    checkChunks ((pieces chunkBytes content).map (chunkOf P)) 0 = .ok content.length ∧
      ((pieces chunkBytes content).map (chunkOf P)).length ≤ 64 := by
  obtain ⟨k, last, hmap, hpos, hle, hlength⟩ := map_length_pieces chunkBytes_pos content hne
  have hsizes : ((pieces chunkBytes content).map (chunkOf P)).map (·.sizeBytes) =
      List.replicate k chunkBytes ++ [last] := by
    rw [List.map_map]
    exact hmap
  have hword : maxBundleBytes ≤ u64Max := by decide
  constructor
  · rw [checkChunks_eq _ (by simp [chunkOf, hhash]) hsizes hpos hle (by omega), hlength,
      Nat.zero_add]
  · have hcount := congrArg List.length hmap
    rw [List.length_map, List.length_append, List.length_replicate, List.length_singleton] at hcount
    have hbundle : maxBundleBytes = 64 * chunkBytes := by decide
    have hk : k < 64 := by
      by_contra hk
      have hmul := Nat.mul_le_mul_right chunkBytes (Nat.le_of_not_lt hk)
      omega
    rw [List.length_map]
    omega

/-- The chunks that `prepare` staged, in the order of the manifest, are the pieces of the input. -/
theorem prepare_bodies {P : Primitives} {e : Preparation} {m : BundleManifest}
    {files : Map String Bytes} (h : prepare P e = .ok (m, files))
    (hinj : Set.InjOn P.sha256 {b | b ∈ pieces chunkBytes e.content}) :
    m.chunks.map (fun chunk => files.lookup chunk.sha256) =
      (pieces chunkBytes e.content).map some := by
  obtain ⟨-, -, -, hchunks, hfiles⟩ := prepare_ok h
  rw [hchunks, List.map_map]
  exact List.map_congr_left fun body hbody => hfiles.lookup hinj hbody

/-- Splitting and putting together are inverse. What `prepare` accepts has a manifest that `validate`
accepts; the staged files, one for each hash and looked up in the order of the manifest, make up the
input; `fetch` recovers the input from a server that answers with them, and `complete_unlocked` reads
the input from a storage that holds them. `validate` accepts the canonical sizes of a manifest's size
only, and the chunk list of no content of 1 byte to 1 GiB is turned away. -/
theorem split_reassembly (P : Primitives) :
    (∀ e m files, prepare P e = .ok (m, files) →
      Set.InjOn P.sha256 {b | b ∈ pieces chunkBytes e.content} →
      validate P m = .ok () ∧ m.sizeBytes = e.content.length ∧
      (∃ bodies : List Bytes, m.chunks.map (fun chunk => files.lookup chunk.sha256) = bodies.map some ∧
        bodies.flatten = e.content) ∧
      (∀ hash, hash ∈ files ↔ ∃ chunk ∈ m.chunks, chunk.sha256 = hash) ∧
      (∀ pinned keyId agent f, f.io .connection = .ok () → f.io .token = .ok () →
        (∀ i chunk, m.chunks[i]? = some chunk → ∃ body, files.lookup chunk.sha256 = some body ∧
          Answers P pinned keyId agent f i chunk body) →
        transfer P pinned keyId agent f m = .ok e.content) ∧
      (∀ cfg d agent, (∀ chunk ∈ m.chunks, ∃ body receipt,
          files.lookup chunk.sha256 = some body ∧ receipt.receipt.kind = "backup" ∧
          Stored P cfg d (min cfg.maxObjectBytes chunkBytes) agent chunk.sha256 receipt body) →
        ∃ stamps, readChunks P cfg (fun _ => .still d) agent m.chunks 0 = .ok (e.content, stamps) ∧
          P.sha256 e.content = m.sha256)) ∧
    (∀ m, validate P m = .ok () →
      m.chunks.map (·.sizeBytes) = sizes chunkBytes m.sizeBytes ∧
        m.chunks.length = (m.sizeBytes + chunkBytes - 1) / chunkBytes) ∧
    ((∀ bytes, validHash (P.sha256 bytes)) → ∀ content : Bytes, content ≠ [] →
      content.length ≤ maxBundleBytes →
      checkChunks ((pieces chunkBytes content).map (chunkOf P)) 0 = .ok content.length ∧
        ((pieces chunkBytes content).map (chunkOf P)).length ≤ 64) := by
  refine ⟨fun e m files h hinj => ?_, fun m h => ?_, fun hhash content hne hmax =>
    checkChunks_pieces hhash hne hmax⟩
  · obtain ⟨hvalid, hsize, hsha, hchunks, hfiles⟩ := prepare_ok h
    have hflatten := flatten_pieces chunkBytes_pos e.content
    have hlookup := fun body => @Files.lookup _ _ _ hfiles hinj body
    refine ⟨hvalid, hsize, ⟨_, prepare_bodies h hinj, hflatten⟩, fun hash => ?_, ?_, ?_⟩
    · constructor
      · intro hmem
        obtain ⟨body, hbody⟩ := Option.isSome_iff_exists.1 (AList.lookup_isSome.2 hmem)
        obtain ⟨hin, heq⟩ := hfiles.sound hash body hbody
        exact ⟨chunkOf P body, by rw [hchunks]; exact List.mem_map_of_mem hin, heq.symm⟩
      · rintro ⟨chunk, hchunk, rfl⟩
        rw [hchunks] at hchunk
        obtain ⟨body, hin, rfl⟩ := List.mem_map.1 hchunk
        exact hfiles.complete body hin
    · intro pinned keyId agent f hconnection htoken hanswers
      have hloop := @fetchChunks_eq P pinned keyId agent f (pieces chunkBytes e.content) 0 [] 0 (by
        intro j body hbody
        have hin : body ∈ pieces chunkBytes e.content := List.mem_of_getElem? hbody
        obtain ⟨found, hfound, hanswer⟩ := hanswers j (chunkOf P body) (by
          rw [hchunks, List.getElem?_map, hbody]; rfl)
        have heq : found = body := Option.some.inj (hfound.symm.trans (hlookup body hin))
        rw [Nat.zero_add]
        exact ⟨length_le_of_mem_pieces chunkBytes_pos hin, heq ▸ hanswer⟩)
      simp only [transfer, Result.bind_ok_iff, exists_unit_iff, refuse_ok_iff]
      refine ⟨hconnection, htoken, _, by rw [hchunks]; exact hloop, ?_, ?_⟩
      · simp [hflatten, hsize, hsha]
      · simp [hflatten]
    · intro cfg d agent hstored
      obtain ⟨stamps, hread⟩ :=
        @readChunks_eq P cfg d agent (pieces chunkBytes e.content) 0 (by
          intro body hin
          obtain ⟨found, receipt, hfound, hkind, hst⟩ := hstored (chunkOf P body) (by
            rw [hchunks]; exact List.mem_map_of_mem hin)
          have heq : found = body := Option.some.inj (hfound.symm.trans (hlookup body hin))
          exact ⟨receipt, heq ▸ hst, hkind⟩)
      refine ⟨stamps, ?_, hsha.symm⟩
      rw [hchunks, hread, hflatten]
  · have hsizes := validate_sizes h
    refine ⟨hsizes, ?_⟩
    rw [← length_sizes chunkBytes_pos, ← hsizes, List.length_map]

/-- A file of two bytes, and nothing in the way. -/
def twoBytes : Preparation where
  io _ := .ok ()
  symlink := false
  sameBefore := true
  size := 2
  content := [1, 2]
  random := "00000000000000000000000000000000"
  now := 0
  metadata := ⟨"/a", none, "", none⟩
  sameAfter := true
  samePathAfter := true
  symlinkAfter := false

theorem stageAll_twoBytes :
    stageAll sample twoBytes [1, 2] ⟨[], 0, ∅, []⟩ =
      .ok ⟨[1, 2], 2, (∅ : Map String Bytes).insert (sample.sha256 [1, 2]) [1, 2],
        [chunkOf sample [1, 2]]⟩ := by
  have htake : List.take chunkBytes ([1, 2] : Bytes) = [1, 2] := List.take_of_length_le (by decide)
  have hdrop : List.drop chunkBytes ([1, 2] : Bytes) = [] := List.drop_eq_nil_of_le (by decide)
  have hturn : stageChunk sample twoBytes ⟨[], 0, ∅, []⟩ [1, 2] =
      .ok ⟨[1, 2], 2, (∅ : Map String Bytes).insert (sample.sha256 [1, 2]) [1, 2],
        [chunkOf sample [1, 2]]⟩ := rfl
  rw [stageAll, htake, dif_neg (List.cons_ne_nil _ _), hturn, hdrop]
  show stageAll sample twoBytes [] _ = _
  rw [stageAll, dif_pos List.take_nil]
  rfl

/-- The two bytes are split, and the staged files make them up again. -/
theorem split_reassembly_two_bytes :
    ∃ m files, prepare sample twoBytes = .ok (m, files) ∧ m.sizeBytes = 2 ∧
      ∃ bodies : List Bytes, m.chunks.map (fun chunk => files.lookup chunk.sha256) =
        bodies.map some ∧ bodies.flatten = [1, 2] := by
  have hprepare : prepare sample twoBytes =
      .ok ({ firstManifest twoBytes with
        sha256 := sample.sha256 [1, 2], chunks := [chunkOf sample [1, 2]] },
        (∅ : Map String Bytes).insert (sample.sha256 [1, 2]) [1, 2]) := by
    simp only [prepare, Result.bind_ok_iff, exists_unit_iff, refuse_ok_iff]
    exact ⟨rfl, rfl, rfl, rfl, by decide, rfl, by decide +kernel, rfl, rfl, _, stageAll_twoBytes,
      rfl, rfl, by decide, by decide +kernel, rfl, rfl⟩
  have hpieces : pieces chunkBytes twoBytes.content = [[1, 2]] := by
    show pieces chunkBytes ([1, 2] : Bytes) = [[1, 2]]
    rw [pieces_eq chunkBytes_pos (List.cons_ne_nil _ _), List.drop_eq_nil_of_le (by decide),
      pieces_nil, List.take_of_length_le (by decide)]
  obtain ⟨-, hsize, hbodies, -⟩ := (split_reassembly sample).1 twoBytes _ _ hprepare (by
    rw [hpieces]
    intro a ha b hb _
    rw [Set.mem_ofPred_eq, List.mem_singleton] at ha hb
    rw [ha, hb])
  exact ⟨_, _, hprepare, hsize, hbodies⟩

end Argos.Vault
