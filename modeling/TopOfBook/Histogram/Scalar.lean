/-! The arithmetic that estimates are made with. It is double precision when the program runs,
and exact rational arithmetic to reason with. -/

namespace TopOfBook

class Scalar (R : Type) extends Add R, Sub R, Mul R, Div R where
  ofCount : Nat → R
  floor : R → R
  atMost : R → R → Bool

/-- Samples that can be read as scalars. `ofScalar` takes a sample near the scalar: a fraction
is cut off, and what lies beyond the samples goes to the one at that end. -/
class Measured (T : Type) (R : Type) where
  toScalar : T → R
  ofScalar : R → T

/-- Counts stay below `2 ^ 64` and are rounded to the nearest double. Estimates are made with
doubles where nothing else is said. -/
@[default_instance] instance : Scalar Float where
  ofCount n := n.toUInt64.toFloat
  floor := Float.floor
  atMost a b := decide (a ≤ b)

instance : Measured Float Float := ⟨id, id⟩
instance : Measured UInt32 Float := ⟨UInt32.toFloat, Float.toUInt32⟩
instance : Measured UInt64 Float := ⟨UInt64.toFloat, Float.toUInt64⟩
instance : Measured Int32 Float := ⟨Int32.toFloat, Float.toInt32⟩
instance : Measured Int64 Float := ⟨Int64.toFloat, Float.toInt64⟩
instance : Measured Nat Float := ⟨fun n => n.toUInt64.toFloat, fun x => x.toUInt64.toNat⟩

end TopOfBook
