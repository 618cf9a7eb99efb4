import Std.Data.ExtTreeMap

/-! Instruments, known by the locate code of the feed, and the two sides of a market. -/

namespace TopOfBook

structure Instrument where
  id : UInt32
deriving DecidableEq, Repr, Inhabited

namespace Instrument

instance : Ord Instrument := ⟨fun a b => compare a.id b.id⟩

instance : Std.TransOrd Instrument :=
  inferInstanceAs (Std.TransCmp (compareOn Instrument.id))

instance : Std.LawfulEqOrd Instrument where
  eq_of_compare {a b} h := by
    cases a; cases b
    exact congrArg Instrument.mk (Std.LawfulEqOrd.eq_of_compare h)

def render (i : Instrument) : String := "SYM_" ++ Nat.repr i.id.toNat

/-- The worker that serves the instrument: its code modulo the number of workers, and no
worker at all when there are none. -/
def worker? (i : Instrument) (workers : Nat) : Option Nat :=
  if workers = 0 then none else some (i.id.toNat % workers)

end Instrument

inductive Side
  | buy
  | sell
deriving DecidableEq, Repr, Inhabited

namespace Side

def opposite : Side → Side
  | buy => sell
  | sell => buy

def isBuy : Side → Bool
  | buy => true
  | sell => false

/-- The letter the feed uses for the side. -/
def code : Side → String
  | buy => "B"
  | sell => "S"

/-- The name of the side in written events. -/
def name : Side → String
  | buy => "buy"
  | sell => "sell"

end Side
end TopOfBook
