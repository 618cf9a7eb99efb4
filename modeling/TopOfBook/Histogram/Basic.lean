import TopOfBook.Binning.Basic
import TopOfBook.Histogram.Tally

/-! Histograms count weighted samples by bin and keep the extremes exactly; the samples
themselves are not kept. Samples out of range are counted at the edge and tallied apart. -/

namespace TopOfBook

/-- The smallest and the largest sample seen. -/
structure Extremes (T : Type) where
  smallest : T
  largest : T
deriving DecidableEq, Repr

namespace Extremes

variable {T : Type} [LT T] [DecidableLT T]

/-- A sample replaces an extreme only when it lies strictly beyond it. -/
def widen (seen : Option (Extremes T)) (smallest largest : T) : Extremes T :=
  match seen with
  | none => ⟨smallest, largest⟩
  | some e =>
    ⟨if smallest < e.smallest then smallest else e.smallest,
      if e.largest < largest then largest else e.largest⟩

end Extremes

structure Histogram (B T : Type) where
  binning : B
  bins : Tally
  samples : Nat
  underflow : Nat
  overflow : Nat
  extremes : Option (Extremes T)

/-- Why a histogram gives no answer. A percentile is in the arithmetic of the estimates. -/
inductive HistogramFault (R : Type := Float)
  | emptyHistogram
  | differentBinning
  | percentileOutOfRange (percentile : R)

namespace Histogram

variable {B T : Type}

def empty (binning : B) : Histogram B T := ⟨binning, .empty, 0, 0, 0, none⟩

def isEmpty (h : Histogram B T) : Bool := h.samples == 0

/-- Drops all samples and keeps the binning. -/
def reset (h : Histogram B T) : Histogram B T := empty h.binning

/-- Counts a sample so many times; not at all for a weight of zero. -/
def addWeighted [Binning B T] [LT T] [DecidableLT T] (h : Histogram B T) (x : T)
    (weight : Nat) : Histogram B T :=
  if weight = 0 then h
  else
    let place := Binning.locate h.binning x
    { h with
      bins := h.bins.add (Binning.binOf h.binning x) weight
      samples := h.samples + weight
      underflow := if place = .underflow then h.underflow + weight else h.underflow
      overflow := if place = .overflow then h.overflow + weight else h.overflow
      extremes := some (Extremes.widen h.extremes x x) }

def add [Binning B T] [LT T] [DecidableLT T] (h : Histogram B T) (x : T) : Histogram B T :=
  h.addWeighted x 1

/-- Adds all that another histogram has counted, provided the bins are the same. -/
def merge [BEq B] [LT T] [DecidableLT T] (a b : Histogram B T) :
    Except HistogramFault (Histogram B T) :=
  if a.binning == b.binning then
    .ok { a with
      bins := a.bins.merge b.bins
      samples := a.samples + b.samples
      underflow := a.underflow + b.underflow
      overflow := a.overflow + b.overflow
      extremes :=
        match b.extremes with
        | none => a.extremes
        | some e => some (Extremes.widen a.extremes e.smallest e.largest) }
  else .error .differentBinning

end Histogram
end TopOfBook
