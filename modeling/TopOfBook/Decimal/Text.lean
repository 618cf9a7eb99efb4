import TopOfBook.Decimal.Shortest

/-! Two ways to write a double: all its shortest digits without an exponent, and rounded to a
whole number. -/

namespace TopOfBook.Decimal

def signed (negative : Bool) (text : String) : String := if negative then "-" ++ text else text

/-- A text for every double, given how the finite ones are written. -/
def written (finite : Binary → String) (x : Float) : String :=
  match Reading.ofFloat x with
  | .notANumber => "NaN"
  | .infinite negative => signed negative "inf"
  | .finite b => signed b.negative (finite b)

/-- Places the point by the exponent alone, with no zeros after the last digit. -/
def Scaled.positional (s : Scaled) : String :=
  let digits := Nat.repr s.digits
  if 0 ≤ s.exponent then digits ++ String.ofList (List.replicate s.exponent.toNat '0')
  else
    let places := (-s.exponent).toNat
    if places < digits.length then
      let whole := digits.length - places
      String.ofList (digits.toList.take whole) ++ "." ++ String.ofList (digits.toList.drop whole)
    else
      "0." ++ String.ofList (List.replicate (places - digits.length) '0') ++ digits

/-- The shortest digits that read back, never with an exponent. -/
def plain (x : Float) : String := written (fun b => (b.shortest .upward).positional) x

/-- The whole number nearest to a quotient, a half going to the even neighbour. -/
def roundHalfEven (numerator denominator : Nat) : Nat :=
  let quotient := numerator / denominator
  let twice := 2 * (numerator % denominator)
  if twice < denominator || (twice = denominator && quotient % 2 = 0) then quotient
  else quotient + 1

/-- The exact value rounded to a whole number; the sign is kept, also before a zero. -/
def whole (x : Float) : String :=
  written (fun b => Nat.repr (roundHalfEven b.fraction.1 b.fraction.2)) x

end TopOfBook.Decimal
