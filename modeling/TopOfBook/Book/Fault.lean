import TopOfBook.Market.Instrument
import TopOfBook.Market.Price
import TopOfBook.Market.Quantity

/-! Contradictions between the feed and the state built from it. -/

namespace TopOfBook

/-- The number an exchange gives to a resting order. -/
abbrev OrderId := UInt64

inductive BookFault
  /-- The order is not live. -/
  | unknownOrder (id : OrderId)
  /-- The order is already live. -/
  | duplicateOrder (id : OrderId)
  /-- The order has fewer shares left than are to be taken off. -/
  | overReduction (id : OrderId) (requested remaining : Quantity)
  | zeroQuantity (id : OrderId)
  /-- The level is missing, or holds fewer shares than are to be taken off. -/
  | levelShortage (side : Side) (price : Price) (requested available : Quantity)
  /-- The level cannot hold the shares to be added. -/
  | levelOverflow (side : Side) (price : Price) (requested available : Quantity)
  /-- The order rests on another instrument than the event is for. -/
  | instrumentMismatch (id : OrderId) (expected actual : Instrument)
deriving DecidableEq, Repr

namespace BookFault

def orderText (id : OrderId) : String := Nat.repr id.toNat

def message : BookFault → String
  | unknownOrder id => "unknown order id " ++ orderText id
  | duplicateOrder id => "duplicate order id " ++ orderText id
  | overReduction id requested remaining =>
    "order " ++ orderText id ++ " has " ++ remaining.render ++
      " shares left, cannot reduce by " ++ requested.render
  | zeroQuantity id => "order " ++ orderText id ++ " has zero quantity"
  | levelShortage side price requested available =>
    "book corruption on " ++ side.code ++ " side at " ++ price.render ++ ": reduce by " ++
      requested.render ++ ", level holds " ++ available.render
  | levelOverflow side price requested available =>
    "level overflow on " ++ side.code ++ " side at " ++ price.render ++ ": add " ++
      requested.render ++ ", level holds " ++ available.render
  | instrumentMismatch id expected actual =>
    "order " ++ orderText id ++ " belongs to " ++ expected.render ++ ", event is for " ++
      actual.render

end BookFault
end TopOfBook
