import Mathlib.Data.Rat.Defs
import Mathlib.Algebra.Order.Field.Rat
import Mathlib.Algebra.Order.Ring.Nat

/-!
# Events and detections

The records of `argos-common/src/event.rs`: what a sensor observes of a file, and what the detection
engine makes of it. An `f64` is kept with its finite values as exact rationals, so that the scores
are computed without rounding; the infinities and the values that are not numbers stay, since they
can be read from a file and are refused by comparisons.
-/

namespace Argos.Common

/-- An `f64`. -/
inductive Number where
  | finite (value : ℚ)
  | infinite (negative : Bool)
  | nan
deriving DecidableEq, Repr

namespace Number

/-- `f64::is_finite`. -/
def isFinite : Number → Bool
  | finite _ => true
  | _ => false

/-- `a <= b`; nothing compares with a value that is not a number. -/
def le : Number → Number → Bool
  | finite a, finite b => a ≤ b
  | infinite true, finite _ => true
  | finite _, infinite false => true
  | infinite a, infinite b => a || !b
  | _, _ => false

/-- `a < b`. -/
def lt (a b : Number) : Bool := le a b && !le b a

/-- `(low..=high).contains(&a)`. -/
def inRange (low high : ℚ) (a : Number) : Bool := le (finite low) a && le a (finite high)

/-- The value of a finite number, and `0` otherwise. -/
def value : Number → ℚ
  | finite q => q
  | _ => 0

end Number

/-- `Severity`. -/
inductive Severity where
  | low
  | medium
  | high
  | critical
deriving DecidableEq, Repr

/-- `Severity::as_str`. -/
def Severity.asStr : Severity → String
  | low => "low"
  | medium => "medium"
  | high => "high"
  | critical => "critical"

/-- `Detection`. -/
structure Detection where
  timestampMs : Nat
  rule : String
  score : Number
  severity : Severity
  summary : String
  pid : Nat
  paths : List String
deriving DecidableEq, Repr

/-- `FileAction`. -/
inductive FileAction where
  | create
  | modify
  | delete
  | rename
  | chmod
  | chown
deriving DecidableEq, Repr

/-- `ContentSample`. -/
structure ContentSample where
  offset : Nat
  length : Nat
  entropy : Number
deriving DecidableEq, Repr

/-- `ContentEvidence`. -/
structure ContentEvidence where
  observedAtMs : Nat
  fileSize : Nat
  sampledBytes : Nat
  budgetBytes : Nat
  fileType : String
  samples : List ContentSample
  complete : Bool
  previousObservedAtMs : Option Nat
  maxEntropyIncrease : Option Number
deriving DecidableEq, Repr

/-- `ProcessIdentity`. -/
structure ProcessIdentity where
  pid : Nat
  startTimeTicks : Nat
  bootId : String
deriving DecidableEq, Repr

/-- `FileProcessContext`. -/
structure FileProcessContext where
  uid : Nat
  exe : String
  startTimeTicks : Nat
  bootId : String
  ancestors : List ProcessIdentity
deriving DecidableEq, Repr

/-- `FileEvent`. -/
structure FileEvent where
  timestampMs : Nat
  pid : Nat
  path : String
  action : FileAction
  size : Option Nat
  entropy : Option Number
  process : Option FileProcessContext
  content : Option ContentEvidence
deriving DecidableEq, Repr

end Argos.Common
