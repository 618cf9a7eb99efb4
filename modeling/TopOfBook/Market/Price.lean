import Std.Data.ExtTreeMap

/-! Prices are whole ticks of a ten-thousandth of a currency unit. They are written with a
point and exactly four digits, and ordered by their ticks. -/

namespace TopOfBook

structure Price where
  ticks : Int64
deriving DecidableEq, Repr, Inhabited

namespace Price

/-- Ticks in one currency unit. -/
def ticksPerUnit : Nat := 10000

def zero : Price := ⟨0⟩

/-- The largest price the feed can carry, written for an empty offer side. -/
def feedMaximum : Price := ⟨2000000000⟩

def ofUnits (units : Int64) : Price := ⟨units * 10000⟩

/-- For display only: the nearest double to the price in currency units. -/
def toFloat (p : Price) : Float := p.ticks.toFloat / 10000.0

instance : Ord Price := ⟨fun a b => compare a.ticks b.ticks⟩

instance : Std.TransOrd Price :=
  inferInstanceAs (Std.TransCmp (compareOn Price.ticks))

instance : Std.LawfulEqOrd Price where
  eq_of_compare {a b} h := by
    cases a; cases b
    exact congrArg Price.mk (Std.LawfulEqOrd.eq_of_compare h)

/-- The digits of a number, with zeros in front up to the given width. -/
def paddedDigits (width n : Nat) : String :=
  let digits := Nat.repr n
  String.ofList (List.replicate (width - digits.length) '0') ++ digits

/-- A minus sign for a negative price, the whole units, a point and four digits. -/
def render (p : Price) : String :=
  let magnitude := p.ticks.toInt.natAbs
  (if p.ticks < 0 then "-" else "") ++ Nat.repr (magnitude / ticksPerUnit) ++ "." ++
    paddedDigits 4 (magnitude % ticksPerUnit)

end Price
end TopOfBook
