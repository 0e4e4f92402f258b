import Argos.Common.Event
import Argos.Sensor.Health

/-!
# The reader of file events

`read_loop` of `argos-sensor/src/fanotify.rs`: the kernel fills a buffer with records, and the reader
walks over them by the lengths that the records give themselves. The buffer is used again for every
read, so behind the bytes that were read it holds bytes of earlier reads. A run of the reader is
written down as its moments, one for each record and for each way in which a turn ends: the health
counters are read by another thread, which can look at them between any two of these.

What the kernel answers comes with each turn: the bytes, and for every record the target of its
descriptor, the clock, the size of the file, the process and the state of the channel. The read may
end anywhere, and the records may hold anything.
-/

namespace Argos.Sensor

open Argos.Common

/-! ## Paths -/

/-- A path as the kernel gives it. -/
abbrev OsPath := List UInt8

/-- `Component` of a path that need not be a text. -/
inductive OsComponent where
  | rootDir
  | curDir
  | parentDir
  | normal (name : List UInt8)
deriving DecidableEq, Repr

/-- A part of a path between separators; a `.` counts at the start of a path only. -/
def osComponent (first : Bool) (part : List UInt8) : Option OsComponent :=
  if part = [] then none
  else if part = [46] then (if first then some .curDir else none)
  else if part = [46, 46] then some .parentDir
  else some (.normal part)

/-- `Path::components`. -/
def osComponents (path : OsPath) : List OsComponent :=
  match path.splitOn 47 with
  | [] => []
  | part :: rest =>
    (if path.head? = some 47 then [.rootDir] else (osComponent true part).toList) ++
      rest.filterMap (osComponent false)

/-- `in_scope`. -/
def inScope (path : OsPath) (prefixes : List OsPath) : Bool :=
  prefixes.any fun root => (osComponents root).isPrefixOf (osComponents path)

/-! ## Records -/

/-- The size of `fanotify_event_metadata`. -/
def metaSize : Nat := 24

/-- The size of the buffer. -/
def bufferSize : Nat := 64 * 1024

/-- What the reader uses of `fanotify_event_metadata`. -/
structure Metadata where
  eventLen : Nat
  vers : Nat
  metadataLen : Nat
  mask : Nat
  fd : Int
  pid : Int
deriving DecidableEq, Repr

/-- A number of some bytes at a place of the buffer, least byte first. -/
def numberAt (buf : List UInt8) (offset length : Nat) : Nat :=
  ((buf.drop offset).take length).foldr (fun byte n => byte.toNat + 256 * n) 0

/-- A number of 32 bits with a sign. -/
def signed (n : Nat) : Int := if n < 2 ^ 31 then n else n - 2 ^ 32

/-- The record at a place of the buffer; the sixth byte is reserved. -/
def metadataAt (buf : List UInt8) (offset : Nat) : Metadata where
  eventLen := numberAt buf offset 4
  vers := numberAt buf (offset + 4) 1
  metadataLen := numberAt buf (offset + 6) 2
  mask := numberAt buf (offset + 8) 8
  fd := signed (numberAt buf (offset + 16) 4)
  pid := signed (numberAt buf (offset + 20) 4)

/-- `valid_metadata`. -/
def validMetadata (m : Metadata) (remaining : Nat) : Bool :=
  metaSize ≤ m.eventLen && m.eventLen ≤ remaining && metaSize ≤ m.metadataLen && m.metadataLen ≤ m.eventLen

/-- `FANOTIFY_METADATA_VERSION`. -/
def metadataVersion : Nat := 3

/-- `meta.mask & FAN_Q_OVERFLOW != 0`. -/
def Metadata.overflow (m : Metadata) : Bool := m.mask.testBit 14

/-! ## The walk over a buffer -/

/-- What a reader watches. `lossy` is `to_string_lossy`. -/
structure Reader where
  prefixes : List OsPath
  selfPid : Nat
  lossy : OsPath → String

/-- What is answered for a record. -/
structure Answers where
  link : Option OsPath
  now : Nat
  size : Option Nat
  process : Option FileProcessContext
  sending : Sending

/-- What a reader has done. -/
structure Progress where
  health : Counters
  sent : List FileEvent
  closed : Bool

/-- The event of a record. -/
def eventOf (R : Reader) (m : Metadata) (env : Answers) (path : OsPath) : FileEvent where
  timestampMs := env.now
  pid := m.pid.toNat
  path := R.lossy path
  action := .modify
  size := env.size
  entropy := none
  process := env.process
  content := none

/-- A record concerns a file that is watched, and another process. -/
def wanted (R : Reader) (m : Metadata) (path : OsPath) : Bool :=
  inScope path R.prefixes && 0 < m.pid && m.pid.toNat ≠ R.selfPid

/-- An event is offered to the channel. -/
def offered (p : Progress) (env : Answers) (event : FileEvent) : Progress where
  health := (p.health.deliver env.now env.sending).2
  sent := if env.sending = .sent then p.sent ++ [event] else p.sent
  closed := !(p.health.deliver env.now env.sending).1

/-- A record with the mark of a lost record. -/
def marked (m : Metadata) (p : Progress) : Progress :=
  if m.overflow then { p with health := p.health.overflow } else p

/-- What is done for a record. -/
def visit (R : Reader) (env : Answers) (m : Metadata) (p : Progress) : Progress :=
  if 0 ≤ m.fd && !p.closed then
    match env.link with
    | some path =>
      if wanted R m path then offered (marked m p) env (eventOf R m env path) else marked m p
    | none => { marked m p with health := (marked m p).health.error }
  else marked m p

/-- What a moment of the reader is about. -/
inductive Cause where
  /-- A record at a place of a buffer of which so many bytes were read. -/
  | record (read offset : Nat) (m : Metadata) (env : Answers)
  | malformed (read offset : Nat)
  | trailing (read offset : Nat)
  | failed
  | ended

/-- A moment of the reader. -/
structure Moment where
  cause : Cause
  before : Progress
  after : Progress

/-- An error is counted. -/
def Progress.error (p : Progress) : Progress := { p with health := p.health.error }

/-- The walk over the first `n` bytes of the buffer: the moments, what is done after it, and whether
the records were well formed. -/
def walk (R : Reader) (env : Nat → Answers) (buf : List UInt8) (n offset : Nat) (p : Progress) :
    List Moment × Progress × Bool :=
  if offset + metaSize ≤ n then
    let m := metadataAt buf offset
    if validMetadata m (n - offset) ∧ m.vers = metadataVersion then
      let after := visit R (env offset) m p
      let rest := walk R env buf n (offset + m.eventLen) after
      (⟨.record n offset m (env offset), p, after⟩ :: rest.1, rest.2)
    else ([⟨.malformed n offset, p, p.error⟩], p.error, false)
  else if offset ≠ n then ([⟨.trailing n offset, p, p.error⟩], p.error, true)
  else ([], p, true)
termination_by n - offset
decreasing_by
  rename_i hfits hvalid
  have hlength : metaSize ≤ (metadataAt buf offset).eventLen := by
    have hall := hvalid.1
    unfold validMetadata at hall
    simp only [Bool.and_eq_true, decide_eq_true_eq] at hall
    exact hall.1.1.1
  unfold metaSize at *
  omega

section Walk

variable {R : Reader} {env : Nat → Answers} {buf : List UInt8} {n offset : Nat} {p : Progress}

/-- The record at a place can be walked over. -/
def Walkable (buf : List UInt8) (n offset : Nat) : Prop :=
  offset + metaSize ≤ n ∧ validMetadata (metadataAt buf offset) (n - offset) = true ∧
    (metadataAt buf offset).vers = metadataVersion

theorem Walkable.length (h : Walkable buf n offset) :
    metaSize ≤ (metadataAt buf offset).eventLen ∧ offset + (metadataAt buf offset).eventLen ≤ n := by
  have hall := h.2.1
  unfold validMetadata at hall
  simp only [Bool.and_eq_true, decide_eq_true_eq] at hall
  have hfits := h.1
  exact ⟨hall.1.1.1, by omega⟩

end Walk

/-! ## The loop -/

/-- One turn of the loop. -/
inductive Turn where
  /-- The reader is told to stop, or the receiver is gone. -/
  | stopped
  /-- Nothing to read, or the call was interrupted. -/
  | again
  /-- The poll or the read failed, or the read returned nothing. -/
  | failed
  /-- Bytes were read. -/
  | data (bytes : List UInt8) (env : Nat → Answers)

/-- The state of the loop. -/
structure ReadLoop where
  buf : List UInt8
  progress : Progress
  running : Bool

/-- The reader ends, and says so. -/
def ReadLoop.ended (s : ReadLoop) (p : Progress) : ReadLoop × List Moment :=
  let last := { p with health := p.health.stop }
  ({ s with progress := last, running := false }, [⟨.ended, p, last⟩])

namespace ReadLoop

/-- One turn of the loop with its moments. -/
def turn (R : Reader) (s : ReadLoop) : Turn → ReadLoop × List Moment
  | .stopped => s.ended s.progress
  | .again => (s, [])
  | .failed =>
    let out := s.ended s.progress.error
    (out.1, ⟨.failed, s.progress, s.progress.error⟩ :: out.2)
  | .data bytes env =>
    let buf := bytes ++ s.buf.drop bytes.length
    let walked := walk R env buf bytes.length 0 s.progress
    if walked.2.2 && !walked.2.1.closed then
      ({ s with buf := buf, progress := walked.2.1 }, walked.1)
    else
      let out := ReadLoop.ended { s with buf := buf } walked.2.1
      (out.1, walked.1 ++ out.2)

/-- One turn, if the reader still runs. -/
def step (R : Reader) (s : ReadLoop) (t : Turn) : ReadLoop × List Moment :=
  if s.running then s.turn R t else (s, [])

/-- The loop after some turns. -/
def after (R : Reader) (s : ReadLoop) (turns : List Turn) : ReadLoop :=
  turns.foldl (fun s t => (s.step R t).1) s

/-- The loop when the sensor starts. -/
def start : ReadLoop where
  buf := List.replicate bufferSize 0
  progress := ⟨({} : Counters).start, [], false⟩
  running := true

end ReadLoop

end Argos.Sensor
