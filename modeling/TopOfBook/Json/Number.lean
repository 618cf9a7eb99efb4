import TopOfBook.Decimal.Shortest
import TopOfBook.Json.Value

/-! Doubles in JSON. Reading keeps the leading digits that fit a 64-bit word and scales them
once by a power of ten, which is fast and may be off in the last bit; literals beyond the
largest double are refused. Writing takes the shortest digits that read back. -/

namespace TopOfBook.Json

/-! ### Reading -/

/-- The digits read so far as a word, and the power of ten they are to be scaled by. -/
structure Accumulated where
  significand : Nat
  exponent : Int
deriving Repr

/-- A significand takes another digit as long as it stays below `2 ^ 64`. -/
def Accumulated.push? (a : Accumulated) (d : Digit) : Option Nat :=
  let n := a.significand * 10 + d.val
  if n < UInt64.size then some n else none

/-- The digits before the point. Once one does not fit, it and all after it only scale. -/
def Accumulated.wholeDigits (a : Accumulated) : List Digit → Accumulated
  | [] => a
  | d :: rest =>
    match a.push? d with
    | some n => wholeDigits { a with significand := n } rest
    | none => { a with exponent := a.exponent + (rest.length + 1) }

/-- The digits behind the point. Once one does not fit, it and all after it are dropped. -/
def Accumulated.fractionDigits (a : Accumulated) : List Digit → Accumulated
  | [] => a
  | d :: rest =>
    match a.push? d with
    | some n => fractionDigits ⟨n, a.exponent - 1⟩ rest
    | none => a

/-- A power of ten as a double, for exponents up to 308. -/
def powerOfTen (n : Nat) : Float := Float.ofScientific 1 false n

/-- Divides by `10 ^ 308` until one more division by a power of ten suffices, or nothing is
left. -/
def scaleDown (x : Float) (places : Nat) : Float :=
  if places ≤ 308 then x / powerOfTen places
  else if x == 0.0 then x
  else scaleDown (x / powerOfTen 308) (places - 308)
termination_by places

/-- Scales by a power of ten; `none` when the result is too large for a double. -/
def scale? (x : Float) (exponent : Int) : Option Float :=
  if exponent < 0 then some (scaleDown x (-exponent).toNat)
  else if exponent ≤ 308 then
    let y := x * powerOfTen exponent.toNat
    if y.isInf then none else some y
  else if x == 0.0 then some x
  else none

/-- The largest exponent that is looked at digit by digit. -/
def exponentLimit : Nat := 2147483648

/-- The magnitude of a literal with a fraction, an exponent or too many digits. -/
def Accumulated.magnitude? (a : Accumulated) : Option Exponent → Option Float
  | none => scale? a.significand.toUInt64.toFloat a.exponent
  | some e =>
    let n := Digit.value e.digits 0
    if n < exponentLimit then
      let total := if e.negative then a.exponent - n else a.exponent + n
      scale? a.significand.toUInt64.toFloat total
    else if a.significand ≠ 0 && !e.negative then none
    else some 0.0

/-- The double a literal stands for. -/
def Literal.toFloat? (l : Literal) : Option Float :=
  let a := ((Accumulated.mk 0 0).wholeDigits l.whole).fractionDigits l.fraction
  (a.magnitude? l.exponent).map fun x => if l.negative then -x else x

/-- A literal fits a word, with or without a sign, or else a double. -/
def Literal.isReadable (l : Literal) : Bool :=
  (l.toNatBelow? UInt64.size).isSome || l.toInt64?.isSome || l.toFloat?.isSome

/-! ### Writing -/

/-- Positional notation from `0.00001` up to sixteen digits before the point, with at least one
digit behind it; scientific notation beyond. -/
def Literal.ofScaled (negative : Bool) (s : Decimal.Scaled) : Literal :=
  let digits := Digit.ofNat s.digits
  let point : Int := digits.length + s.exponent
  if 0 ≤ s.exponent && point ≤ 16 then
    ⟨negative, digits ++ List.replicate s.exponent.toNat .zero, [.zero], none⟩
  else if 0 < point && point ≤ 16 then
    ⟨negative, digits.take point.toNat, digits.drop point.toNat, none⟩
  else if -5 < point && point ≤ 0 then
    ⟨negative, [.zero], List.replicate (-point).toNat .zero ++ digits, none⟩
  else
    ⟨negative, digits.take 1, digits.drop 1,
      some ⟨decide (point - 1 < 0), Digit.ofNat (point - 1).natAbs⟩⟩

/-- JSON has no spelling for infinities and for what is not a number: `null` stands for them. -/
def ofFloat (x : Float) : Json :=
  match Decimal.Reading.ofFloat x with
  | .finite b => .number (Literal.ofScaled b.negative (b.shortest .toEven))
  | _ => .null

end TopOfBook.Json
