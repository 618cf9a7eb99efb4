import TopOfBook.Histogram.Quantile
import TopOfBook.Json.Record

/-! What is reported of a histogram: the extremes and five percentiles, and with them the mean
and every bin that is not empty. -/

namespace TopOfBook

structure Summary (R : Type := Float) where
  samples : Nat
  min : R
  p25 : R
  p50 : R
  p75 : R
  p90 : R
  p99 : R
  max : R

namespace Summary

def zero {R : Type} [Scalar R] : Summary R :=
  let none := Scalar.ofCount 0
  ⟨0, none, none, none, none, none, none, none⟩

/-- The columns of `csvFields`, each behind the given word. -/
def csvColumns (word : String) : String :=
  ",".intercalate (["min", "p25", "p50", "p75", "p90", "p99", "max", "nsamples"].map
    fun column => word ++ "_" ++ column)

/-- Whole numbers with commas between them, the count last. -/
def csvFields (s : Summary) : String :=
  ",".intercalate ([s.min, s.p25, s.p50, s.p75, s.p90, s.p99, s.max].map Decimal.whole ++
    [Nat.repr s.samples])

def render (s : Summary) : String :=
  "nsamples=" ++ Nat.repr s.samples ++ ", min=" ++ Decimal.whole s.min ++
    ", p25=" ++ Decimal.whole s.p25 ++ ", p50=" ++ Decimal.whole s.p50 ++
    ", p75=" ++ Decimal.whole s.p75 ++ ", p90=" ++ Decimal.whole s.p90 ++
    ", p99=" ++ Decimal.whole s.p99 ++ ", max=" ++ Decimal.whole s.max

def toJson (s : Summary) : Json :=
  .record [("nsamples", .nat s.samples), ("min", .ofFloat s.min), ("p25", .ofFloat s.p25),
    ("p50", .ofFloat s.p50), ("p75", .ofFloat s.p75), ("p90", .ofFloat s.p90),
    ("p99", .ofFloat s.p99), ("max", .ofFloat s.max)]

def ofJson? (v : Json) : Option Summary := do
  let r ← Json.Record.read? ["nsamples", "min", "p25", "p50", "p75", "p90", "p99", "max"] v
  let samples ← r.required "nsamples" Json.toCount?
  let min ← r.required "min" Json.toFloat?
  let p25 ← r.required "p25" Json.toFloat?
  let p50 ← r.required "p50" Json.toFloat?
  let p75 ← r.required "p75" Json.toFloat?
  let p90 ← r.required "p90" Json.toFloat?
  let p99 ← r.required "p99" Json.toFloat?
  let max ← r.required "max" Json.toFloat?
  some ⟨samples, min, p25, p50, p75, p90, p99, max⟩

end Summary

/-- A bin by its ends, and its weight. -/
structure BinCount where
  low : Float
  high : Float
  count : Nat

structure Snapshot where
  summary : Summary
  mean : Float
  underflow : Nat
  overflow : Nat
  bins : List BinCount

namespace BinCount

def toJson (b : BinCount) : Json :=
  .record [("low", .ofFloat b.low), ("high", .ofFloat b.high), ("count", .nat b.count)]

def ofJson? (v : Json) : Option BinCount := do
  let r ← Json.Record.read? ["low", "high", "count"] v
  let low ← r.required "low" Json.toFloat?
  let high ← r.required "high" Json.toFloat?
  let count ← r.required "count" Json.toCount?
  some ⟨low, high, count⟩

end BinCount

namespace Snapshot

def toJson (s : Snapshot) : Json :=
  .record [("summary", s.summary.toJson), ("mean", .ofFloat s.mean),
    ("underflow", .nat s.underflow), ("overflow", .nat s.overflow),
    ("bins", .array (s.bins.map BinCount.toJson))]

def ofJson? (v : Json) : Option Snapshot := do
  let r ← Json.Record.read? ["summary", "mean", "underflow", "overflow", "bins"] v
  let summary ← r.required "summary" Summary.ofJson?
  let mean ← r.required "mean" Json.toFloat?
  let underflow ← r.required "underflow" Json.toCount?
  let overflow ← r.required "overflow" Json.toCount?
  let bins ← r.required "bins" (Json.toList? BinCount.ofJson?)
  some ⟨summary, mean, underflow, overflow, bins⟩

end Snapshot

namespace Histogram

variable {B T : Type} [Binning B T] [LT T] [DecidableLT T]

section Estimates

variable {R : Type} [Scalar R] [Measured T R]

/-- An estimate as a scalar, zero where there is none. -/
def percentileOrZero (h : Histogram B T) (p : R) : R :=
  match h.percentile p with
  | .ok x => Measured.toScalar x
  | .error _ => Scalar.ofCount 0

/-- All zeros without samples. -/
def summary (h : Histogram B T) : Summary R :=
  if h.isEmpty then .zero
  else
    { samples := h.samples
      min := h.extremes.elim (Scalar.ofCount 0) fun e => Measured.toScalar e.smallest
      p25 := h.percentileOrZero (Scalar.ofCount 25)
      p50 := h.percentileOrZero (Scalar.ofCount 50)
      p75 := h.percentileOrZero (Scalar.ofCount 75)
      p90 := h.percentileOrZero (Scalar.ofCount 90)
      p99 := h.percentileOrZero (Scalar.ofCount 99)
      max := h.extremes.elim (Scalar.ofCount 0) fun e => Measured.toScalar e.largest }

end Estimates

variable [Measured T Float]

/-- The bins that are not empty, ascending. -/
def binCounts (h : Histogram B T) : List BinCount :=
  h.bins.toList.filterMap fun (bin, weight) =>
    (Binning.range? h.binning bin).map fun (low, high) =>
      ⟨Measured.toScalar low, Measured.toScalar high, weight⟩

def snapshot (h : Histogram B T) : Snapshot where
  summary := h.summary
  mean := match h.mean with
    | .ok x => x
    | .error _ => 0.0
  underflow := h.underflow
  overflow := h.overflow
  bins := h.binCounts

end Histogram
end TopOfBook
