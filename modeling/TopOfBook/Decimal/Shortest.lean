import TopOfBook.Decimal.Binary

/-! The shortest decimal that reads back as a given double: of the decimals with the fewest
digits inside the interval of numbers that round to the double, the one nearest to it. -/

namespace TopOfBook.Decimal

/-- Which of two equally near decimals is taken. -/
inductive Tie
  | upward
  | toEven
deriving DecidableEq, Repr

/-- The decimal `digits * 10 ^ exponent`. -/
structure Scaled where
  digits : Nat
  exponent : Int
deriving DecidableEq, Repr

/-- The numbers that round to a double, over one denominator: its value and the halfway points
to its neighbours, which belong to the interval when `closed`. -/
structure RoundingInterval where
  low : Nat
  value : Nat
  high : Nat
  denominator : Nat
  closed : Bool

def Binary.roundingInterval (b : Binary) : RoundingInterval :=
  let (unit, denominator) :=
    if 2 ≤ b.exponent then (Nat.pow 2 (b.exponent - 2).toNat, 1)
    else (1, Nat.pow 2 (2 - b.exponent).toNat)
  let four := 4 * b.mantissa
  ⟨(if b.narrowBelow then four - 1 else four - 2) * unit, four * unit, (four + 2) * unit,
    denominator, b.mantissa % 2 = 0⟩

namespace RoundingInterval

/-- The same interval measured in units of `10 ^ exponent`. -/
def inUnits (i : RoundingInterval) (exponent : Int) : RoundingInterval :=
  if 0 ≤ exponent then { i with denominator := i.denominator * Nat.pow 10 exponent.toNat }
  else
    let scale := Nat.pow 10 (-exponent).toNat
    { i with low := i.low * scale, value := i.value * scale, high := i.high * scale }

def contains (i : RoundingInterval) (n : Nat) : Bool :=
  let x := n * i.denominator
  if i.closed then i.low ≤ x && x ≤ i.high else i.low < x && x < i.high

/-- The whole number nearest to the value, if one next to the value lies in the interval. -/
def nearest? (i : RoundingInterval) (tie : Tie) : Option Nat :=
  let below := i.value / i.denominator
  let above := below + 1
  let distanceBelow := i.value - below * i.denominator
  let distanceAbove := above * i.denominator - i.value
  match i.contains below, i.contains above with
  | false, false => none
  | true, false => some below
  | false, true => some above
  | true, true =>
    if distanceBelow < distanceAbove then some below
    else if distanceAbove < distanceBelow then some above
    else if tie = .toEven && below % 2 = 0 then some below
    else some above

/-- Tries ever finer powers of ten, at most `steps` of them. -/
def search (i : RoundingInterval) (tie : Tie) : Nat → Int → Scaled
  | 0, exponent => ⟨(i.inUnits exponent).value / (i.inUnits exponent).denominator, exponent⟩
  | steps + 1, exponent =>
    match (i.inUnits exponent).nearest? tie with
    | some digits => ⟨digits, exponent⟩
    | none => search i tie steps (exponent - 1)

end RoundingInterval

/-- A power of ten above every number of so many bits. -/
def powerAbove (bits : Int) : Int := (bits * 30103).fdiv 100000 + 1

/-- Seventeen digits always suffice; the first power of ten tried lies at most three above the
leading digit. -/
def Binary.shortest (b : Binary) (tie : Tie) : Scaled :=
  if b.mantissa = 0 then ⟨0, 0⟩
  else
    b.roundingInterval.search tie 21 (powerAbove ((b.mantissa.log2 : Int) + 1 + b.exponent))

end TopOfBook.Decimal
