import TopOfBook.Binning.Basic

/-! One bin for each integer of a range. -/

namespace TopOfBook

/-- Samples that are integers of some width. `ofInt` takes the nearest one. -/
class IntegerSample (T : Type) where
  toInt : T → Int
  ofInt : Int → T

namespace IntegerSample

instance : IntegerSample Nat where
  toInt n := n
  ofInt i := i.toNat

instance : IntegerSample UInt32 where
  toInt n := n.toNat
  ofInt i := Nat.toUInt32 (min i.toNat (UInt32.size - 1))

instance : IntegerSample UInt64 where
  toInt n := n.toNat
  ofInt i := Nat.toUInt64 (min i.toNat (UInt64.size - 1))

instance : IntegerSample Int32 where
  toInt n := n.toInt
  ofInt i := Int32.ofInt (max Int32.minValue.toInt (min i Int32.maxValue.toInt))

instance : IntegerSample Int64 where
  toInt n := n.toInt
  ofInt i := Int64.ofInt (max Int64.minValue.toInt (min i Int64.maxValue.toInt))

end IntegerSample

open IntegerSample

/-- The range from `first` to `last`, both included. -/
structure IntegerRange (T : Type) [IntegerSample T] where
  first : T
  last : T
  ordered : toInt first ≤ toInt last
deriving DecidableEq

namespace IntegerRange

variable {T : Type} [IntegerSample T]

/-- The number of integers in a range. -/
def count (first last : T) : Nat := (toInt last - toInt first + 1).toNat

/-- A range may have at most this many integers. -/
def maxBins : Nat := 16777216

def make (first last : T) : Except BinningFault (IntegerRange T) :=
  if h : toInt last < toInt first then .error (.invertedRange (toInt first) (toInt last))
  else if maxBins < count first last then .error (.tooManyBins (count first last) maxBins)
  else .ok ⟨first, last, by omega⟩

def locate (r : IntegerRange T) (x : T) : Placement :=
  if toInt x < toInt r.first then .underflow
  else if toInt r.last < toInt x then .overflow
  else .bin (toInt x - toInt r.first).toNat

/-- The ends of bins stop at the largest sample of the type. -/
instance : Binning (IntegerRange T) T where
  low r := r.first
  high r := ofInt (toInt r.last + 1)
  size r := count r.first r.last
  locate := locate
  range? r i := some (ofInt (toInt r.first + i), ofInt (toInt r.first + i + 1))

end IntegerRange
end TopOfBook
