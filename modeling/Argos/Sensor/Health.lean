import Mathlib.Algebra.Order.Ring.Nat

/-!
# The health of a sensor

`argos-sensor/src/health.rs`: a reader counts what it hands over and what it loses, and whether it
still runs. The counters are 64 bits wide and start again at zero after `2^64` steps.
-/

namespace Argos.Sensor

/-- `SensorHealthSnapshot`. -/
structure SensorHealthSnapshot where
  alive : Bool
  deliveredEvents : Nat
  droppedEvents : Nat
  errors : Nat
  kernelOverflows : Nat
  lastEventMs : Option Nat
deriving DecidableEq, Repr

/-- `Counters`. -/
structure Counters where
  alive : Bool := false
  delivered : Nat := 0
  dropped : Nat := 0
  errors : Nat := 0
  overflows : Nat := 0
  lastEvent : Nat := 0
deriving DecidableEq, Repr

/-- What a channel answers to `try_send`. -/
inductive Sending where
  | sent
  | full
  | closed
deriving DecidableEq, Repr

/-- `fetch_add(1)`. -/
def bump (n : Nat) : Nat := (n + 1) % 2 ^ 64

namespace Counters

/-- `SensorHealth::start`. -/
def start (c : Counters) : Counters := { c with alive := true }

/-- `SensorHealth::stop`. -/
def stop (c : Counters) : Counters := { c with alive := false }

/-- `SensorHealth::error`. -/
def error (c : Counters) : Counters := { c with errors := bump c.errors }

/-- `SensorHealth::overflow`. -/
def overflow (c : Counters) : Counters := { c with overflows := bump c.overflows }

/-- `SensorHealth::snapshot`. -/
def snapshot (c : Counters) : SensorHealthSnapshot where
  alive := c.alive
  deliveredEvents := c.delivered
  droppedEvents := c.dropped
  errors := c.errors
  kernelOverflows := c.overflows
  lastEventMs := if c.lastEvent ≠ 0 then some c.lastEvent else none

/-- `SensorHealth::deliver`: whether the receiver is still there. -/
def deliver (c : Counters) (now : Nat) (sending : Sending) : Bool × Counters :=
  let c := { c with lastEvent := now }
  match sending with
  | .sent => (true, { c with delivered := bump c.delivered })
  | .full => (true, { c with dropped := bump c.dropped })
  | .closed => (false, c.stop)

end Counters

/-- A snapshot of a reader that runs and has lost nothing. -/
def SensorHealthSnapshot.intact (s : SensorHealthSnapshot) : Bool :=
  s.alive && s.errors = 0 && s.droppedEvents = 0 && s.kernelOverflows = 0

end Argos.Sensor
