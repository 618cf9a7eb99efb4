import TopOfBook.Binning.Cuts
import TopOfBook.Binning.IntegerRange
import TopOfBook.Config.Binning

/-! The binnings that a configuration can choose, over 64-bit words. -/

namespace TopOfBook

inductive ChosenBinning
  | integerRange (range : IntegerRange UInt64)
  | explicitCuts (cuts : Cuts UInt64)

namespace ChosenBinning

def ofChoice : BinningChoice → Except BinningFault ChosenBinning
  | .integerRange min max => (IntegerRange.make min max).map integerRange
  | .explicitCuts cuts => (Cuts.make cuts).map explicitCuts

/-- A range is never the same as cuts, even where their bins agree. -/
instance : BEq ChosenBinning where
  beq
    | integerRange a, integerRange b => a == b
    | explicitCuts a, explicitCuts b => a == b
    | _, _ => false

instance : Binning ChosenBinning UInt64 where
  low
    | integerRange r => Binning.low r
    | explicitCuts c => Binning.low c
  high
    | integerRange r => Binning.high r
    | explicitCuts c => Binning.high c
  size
    | integerRange r => Binning.size r
    | explicitCuts c => Binning.size c
  locate
    | integerRange r, x => Binning.locate r x
    | explicitCuts c, x => Binning.locate c x
  range?
    | integerRange r, i => Binning.range? r i
    | explicitCuts c, i => Binning.range? c i

end ChosenBinning
end TopOfBook
