import TopOfBook.Rate.Distribution

/-! How deep the books are, in price levels on both sides, after each change to one. -/

namespace TopOfBook

structure DepthStatistics where
  depths : CountHistogram

namespace DepthStatistics

/-- Depths above `maxDepth` count as overflow. -/
def make (maxDepth : UInt64) : Except BinningFault DepthStatistics := do
  return ⟨← CountHistogram.make maxDepth.toNat⟩

def sample (d : DepthStatistics) (depth : Nat) : DepthStatistics := ⟨d.depths.add depth⟩

def summary (d : DepthStatistics) : Summary := d.depths.summary

def merge (a b : DepthStatistics) : Except HistogramFault DepthStatistics := do
  return ⟨← a.depths.merge b.depths⟩

def csvHeader : String := "name," ++ Summary.csvColumns "depth"

def csvRow (d : DepthStatistics) (name : String) : String := name ++ "," ++ d.summary.csvFields

end DepthStatistics
end TopOfBook
