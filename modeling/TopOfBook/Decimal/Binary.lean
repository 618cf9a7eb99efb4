/-! A double seen as a sign, a whole number and a power of two. -/

namespace TopOfBook.Decimal

/-- A finite double is `± mantissa * 2 ^ exponent`. `narrowBelow` marks a power of two above the
smallest normal one, whose lower neighbour is only half as far away as its upper one. -/
structure Binary where
  negative : Bool
  mantissa : Nat
  exponent : Int
  narrowBelow : Bool
deriving Repr

inductive Reading
  | notANumber
  | infinite (negative : Bool)
  | finite (value : Binary)
deriving Repr

/-- Splits the 64 bits: one for the sign, eleven for the exponent, 52 for the fraction. -/
def Reading.ofFloat (x : Float) : Reading :=
  let bits := x.toBits.toNat
  let negative := decide (Nat.pow 2 63 ≤ bits)
  let exponent : Nat := bits / Nat.pow 2 52 % 2048
  let fraction : Nat := bits % Nat.pow 2 52
  if exponent = 2047 then
    if fraction = 0 then .infinite negative else .notANumber
  else if exponent = 0 then
    .finite ⟨negative, fraction, -1074, false⟩
  else
    .finite ⟨negative, Nat.pow 2 52 + fraction, (exponent : Int) - 1075,
      fraction = 0 && 1 < exponent⟩

/-- The magnitude as a quotient of natural numbers. -/
def Binary.fraction (b : Binary) : Nat × Nat :=
  if 0 ≤ b.exponent then (b.mantissa * Nat.pow 2 b.exponent.toNat, 1)
  else (b.mantissa, Nat.pow 2 (-b.exponent).toNat)

end TopOfBook.Decimal
