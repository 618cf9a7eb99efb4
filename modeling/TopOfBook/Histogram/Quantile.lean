import TopOfBook.Decimal.Text
import TopOfBook.Histogram.Basic
import TopOfBook.Histogram.Scalar

/-! Estimates from the counts alone: quantiles, taking samples as spread evenly over their bin,
and the mean, taking them at the middle of it. -/

namespace TopOfBook

def HistogramFault.message : HistogramFault → String
  | emptyHistogram => "histogram has no samples"
  | differentBinning => "cannot merge histograms with different binning"
  | percentileOutOfRange p => "percentile " ++ Decimal.plain p ++ " is outside [0, 100]"

/-- The sample at the cumulative share `q`, cut down to a whole number, when the samples from
`low` to before `high` make up `share` of all and follow on the share `before`. -/
def interpolate {T R : Type} [Scalar R] [Measured T R] (low high : T) (before share q : R) : T :=
  let a : R := Measured.toScalar low
  let b : R := Measured.toScalar high
  if Scalar.atMost share (Scalar.ofCount 0) then Measured.ofScalar (Scalar.floor a)
  else Measured.ofScalar (Scalar.floor (a + (q - before) * (b - a) / share))

/-- A bin with the weight before it and its own. -/
structure BinShare where
  bin : Nat
  before : Nat
  weight : Nat
deriving DecidableEq, Repr

/-- The first of the given bins up to which the share `q` of the total is reached. -/
def findBin {R : Type} [Scalar R] (total q : R) (before : Nat) : List (Nat × Nat) → Option BinShare
  | [] => none
  | (bin, weight) :: rest =>
    if Scalar.atMost q (Scalar.ofCount (before + weight) / total) then some ⟨bin, before, weight⟩
    else findBin total q (before + weight) rest

/-- The nearest sample between two extremes. -/
def Extremes.clamp {T : Type} [LT T] [DecidableLT T] (e : Extremes T) (x : T) : T :=
  if x < e.smallest then e.smallest else if e.largest < x then e.largest else x

namespace Histogram

variable {B T : Type} [Binning B T]

/-- The estimate inside the bin that holds the quantile, before it is held to the extremes. -/
def rawQuantile? {R : Type} [Scalar R] [Measured T R] (h : Histogram B T) (q : R) : Option T := do
  let total : R := Scalar.ofCount h.samples
  let share ← findBin total q 0 h.bins.toList
  let (low, high) ← Binning.range? h.binning share.bin
  some (interpolate low high (Scalar.ofCount share.before / total)
    (Scalar.ofCount share.weight / total) q)

/-- The estimated quantile, `none` without samples. It never lies outside the extremes, and is
the largest sample where no bin reaches the quantile. -/
def quantile? {R : Type} [Scalar R] [Measured T R] [LT T] [DecidableLT T] (h : Histogram B T)
    (q : R) : Option T :=
  match h.extremes with
  | none => none
  | some e => some ((h.rawQuantile? q).elim e.largest e.clamp)

variable [LT T] [DecidableLT T]

/-- The quantile for a share between zero and one. -/
def quantile {R : Type} [Scalar R] [Measured T R] (h : Histogram B T) (q : R) :
    Except (HistogramFault R) T :=
  if Scalar.atMost (Scalar.ofCount 0) q && Scalar.atMost q (Scalar.ofCount 1) then
    match h.quantile? q with
    | none => .error .emptyHistogram
    | some x => .ok x
  else .error (.percentileOutOfRange (q * Scalar.ofCount 100))

/-- The quantile for a share in percent. -/
def percentile {R : Type} [Scalar R] [Measured T R] (h : Histogram B T) (p : R) :
    Except (HistogramFault R) T :=
  if Scalar.atMost (Scalar.ofCount 0) p && Scalar.atMost p (Scalar.ofCount 100) then
    h.quantile (p / Scalar.ofCount 100)
  else .error (.percentileOutOfRange p)

/-- The sum starts at minus zero, which leaves the first term as it is. -/
def mean [Measured T Float] (h : Histogram B T) : Except HistogramFault Float :=
  if h.isEmpty then .error .emptyHistogram
  else
    let terms := h.bins.toList.map fun (bin, weight) =>
      match Binning.range? h.binning bin with
      | none => (0.0 : Float)
      | some (low, high) =>
        (Measured.toScalar low + Measured.toScalar high) / 2.0 * Scalar.ofCount weight
    .ok (terms.foldl (· + ·) (-0.0) / Scalar.ofCount h.samples)

end Histogram
end TopOfBook
