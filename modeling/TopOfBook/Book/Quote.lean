import TopOfBook.Book.Side

/-! The inside of a book: its best bid and its best offer. -/

namespace TopOfBook

structure Quote where
  bid : Option Level
  ask : Option Level
deriving DecidableEq, Repr

namespace Quote

def empty : Quote := ⟨none, none⟩

/-- Ticks from the bid to the offer, when both are there. -/
def spread? (q : Quote) : Option Int := do
  let ask ← q.ask
  let bid ← q.bid
  some (ask.price.ticks.toInt - bid.price.ticks.toInt)

/-- The bid is at or above the offer. -/
def isCrossed (q : Quote) : Bool := q.spread?.any (· ≤ 0)

/-- Price and shares of the bid, then of the offer. An empty side has no shares, at price zero
for the bid and at the largest price of the feed for the offer. -/
def render (q : Quote) : String :=
  let bid := q.bid.getD ⟨.zero, .zero⟩
  let ask := q.ask.getD ⟨.feedMaximum, .zero⟩
  bid.price.render ++ " " ++ bid.quantity.render ++ " " ++ ask.price.render ++ " " ++
    ask.quantity.render

end Quote
end TopOfBook
