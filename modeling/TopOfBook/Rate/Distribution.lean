import TopOfBook.Binning.IntegerRange
import TopOfBook.Histogram.Summary
import TopOfBook.Market.Timestamp
import TopOfBook.Rate.Window

/-! How often each event rate was seen: every sampling period counts once. -/

namespace TopOfBook

/-- A histogram of counts, with a bin for each up to the largest. -/
abbrev CountHistogram := Histogram (IntegerRange Nat) Nat

namespace CountHistogram

def make (largest : Nat) : Except BinningFault CountHistogram :=
  (IntegerRange.make 0 largest).map Histogram.empty

end CountHistogram

structure RateDistribution where
  rates : CountHistogram
  window : RateWindow
  /-- The rate of the period completed last. -/
  lastRate : Option Nat

namespace RateDistribution

/-- Events per `measurement` nanoseconds, taken every `sampling` nanoseconds. Rates above
`maxRate` count as overflow. -/
def make (maxRate measurement sampling : UInt64) : Except BinningFault RateDistribution := do
  let rates ← CountHistogram.make maxRate.toNat
  let window ← RateWindow.make measurement sampling
  return ⟨rates, window, none⟩

/-- Counts a report in the histogram. -/
def record (d : CountHistogram × Option Nat) (r : RateReport) : CountHistogram × Option Nat :=
  (d.1.addWeighted r.rate r.repeats, some r.rate)

def sample : RateDistribution → Timestamp → RateDistribution
  | ⟨rates, window, lastRate⟩, t =>
    let (window, reports) := window.sample t.nanos
    let (rates, lastRate) := reports.foldl record (rates, lastRate)
    ⟨rates, window, lastRate⟩

def summary (d : RateDistribution) : Summary := d.rates.summary

/-- Adds the rates seen by another distribution; the window stays as it is. -/
def merge (a b : RateDistribution) : Except HistogramFault RateDistribution := do
  return { a with rates := ← a.rates.merge b.rates }

def reset (d : RateDistribution) : RateDistribution := ⟨d.rates.reset, d.window.reset, none⟩

end RateDistribution
end TopOfBook
