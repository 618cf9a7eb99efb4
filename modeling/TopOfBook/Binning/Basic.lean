/-! A binning cuts a line of samples into numbered bins. Samples below the first bin and beyond
the last one have places of their own, and are counted in the bin at that edge. -/

namespace TopOfBook

/-- Where a sample falls. -/
inductive Placement
  | underflow
  | bin (index : Nat)
  | overflow
deriving DecidableEq, Repr

class Binning (B : Type) (T : outParam Type) where
  /-- The smallest sample with a bin of its own. -/
  low : B → T
  /-- The end of the last bin. -/
  high : B → T
  /-- The number of bins. -/
  size : B → Nat
  locate : B → T → Placement
  /-- The samples of a bin, from the first to before the second. -/
  range? : B → Nat → Option (T × T)

/-- The bin in which a sample is counted: samples out of range go to the bin at their edge. -/
def Binning.binOf {B T : Type} [Binning B T] (b : B) (x : T) : Nat :=
  match locate b x with
  | .underflow => 0
  | .bin i => i
  | .overflow => size b - 1

/-- Why a binning, or a rate to be put into bins, cannot be set up. -/
inductive BinningFault
  | invertedRange (min max : Int)
  | tooManyBins (bins limit : Nat)
  | tooFewCuts (count : Nat)
  | unsortedCuts (position : Nat)
  | invalidRatePeriod (measurement sampling : UInt64)
deriving DecidableEq, Repr

def BinningFault.message : BinningFault → String
  | invertedRange min max =>
    "integer range is inverted: min " ++ Int.repr min ++ " > max " ++ Int.repr max
  | tooManyBins bins limit =>
    "integer range needs " ++ Nat.repr bins ++ " bins, the limit is " ++ Nat.repr limit
  | tooFewCuts count => "explicit cuts need at least 2 values, got " ++ Nat.repr count
  | unsortedCuts position =>
    "explicit cuts must be strictly increasing (position " ++ Nat.repr position ++ ")"
  | invalidRatePeriod measurement sampling =>
    "measurement period " ++ Nat.repr measurement.toNat ++
      "ns must be a positive multiple of the sampling period " ++ Nat.repr sampling.toNat ++ "ns"

end TopOfBook
