import Std.Data.ExtTreeMap

/-! A tally holds how much weight has fallen into each numbered bin. Bins without weight are
not stored, so tallies with the same weights are equal. -/

namespace TopOfBook

structure Tally where
  weights : Std.ExtTreeMap Nat Nat

namespace Tally

def empty : Tally := ⟨∅⟩

/-- The weight in a bin. -/
def weight (t : Tally) (bin : Nat) : Nat := t.weights.getD bin 0

/-- Puts more weight into a bin. -/
def add (t : Tally) (bin weight : Nat) : Tally :=
  if weight = 0 then t
  else ⟨t.weights.alter bin fun before => some (before.getD 0 + weight)⟩

/-- The bins with weight, ascending. -/
def toList (t : Tally) : List (Nat × Nat) := t.weights.toList

/-- All weight of both. -/
def merge (a b : Tally) : Tally := b.toList.foldl (fun t (bin, weight) => t.add bin weight) a

end Tally
end TopOfBook
