import TopOfBook.Book.Fault

/-! One side of a book: the shares at each price. A level exists only while it holds shares.
The best level is the highest bid or the lowest offer. -/

namespace TopOfBook

structure Level where
  price : Price
  quantity : Quantity
deriving DecidableEq, Repr

def Level.render (l : Level) : String := l.quantity.render ++ "@" ++ l.price.render

structure BookSide (side : Side) where
  byPrice : Std.ExtTreeMap Price Quantity

namespace BookSide

variable {side : Side}

def empty : BookSide side := ⟨∅⟩

/-- The shares at a price, `none` when there is no level. -/
def quantityAt? (b : BookSide side) (price : Price) : Option Quantity := b.byPrice[price]?

/-- All levels, best first. -/
def levels (b : BookSide side) : List Level :=
  let ascending := b.byPrice.toList.map fun (price, quantity) => Level.mk price quantity
  match side with
  | .buy => ascending.reverse
  | .sell => ascending

/-- The levels at the two ends of the price range, lowest first. -/
def lowest? (b : BookSide side) : Option Level :=
  b.byPrice.minEntry?.map fun (price, quantity) => ⟨price, quantity⟩

def highest? (b : BookSide side) : Option Level :=
  b.byPrice.maxEntry?.map fun (price, quantity) => ⟨price, quantity⟩

def best? (b : BookSide side) : Option Level :=
  match side with
  | .buy => b.highest?
  | .sell => b.lowest?

def worst? (b : BookSide side) : Option Level :=
  match side with
  | .buy => b.lowest?
  | .sell => b.highest?

/-- Whether the best level is at the given price. -/
def isBest (b : BookSide side) (price : Price) : Bool :=
  b.best?.any fun level => level.price = price

/-- The number of levels. -/
def depth (b : BookSide side) : Nat := b.byPrice.size

def isEmpty (b : BookSide side) : Bool := b.byPrice.isEmpty

/-- At most so many levels, best first. -/
def top (b : BookSide side) (n : Nat) : List Level := b.levels.take n

/-- The shares of all levels. -/
def total (b : BookSide side) : Nat := Quantity.total (b.byPrice.toList.map Prod.snd)

/-- Adds shares at a price, and says whether the level there is the best one afterwards. Adding
nothing changes nothing. -/
def add (b : BookSide side) (price : Price) (quantity : Quantity) :
    Except BookFault (BookSide side × Bool) :=
  if quantity.isZero then .ok (b, false)
  else
    let available := (b.quantityAt? price).getD .zero
    match available.add? quantity with
    | none => .error (.levelOverflow side price quantity available)
    | some sum =>
      let b : BookSide side := ⟨b.byPrice.insert price sum⟩
      .ok (b, b.isBest price)

/-- Takes shares off the level at a price, and says whether it was the best one before. A level
left without shares goes away. -/
def reduce (b : BookSide side) (price : Price) (quantity : Quantity) :
    Except BookFault (BookSide side × Bool) :=
  match b.quantityAt? price with
  | none => .error (.levelShortage side price quantity .zero)
  | some available =>
    match available.sub? quantity with
    | none => .error (.levelShortage side price quantity available)
    | some remaining =>
      let wasBest := b.isBest price
      if remaining.isZero then .ok (⟨b.byPrice.erase price⟩, wasBest)
      else .ok (⟨b.byPrice.insert price remaining⟩, wasBest)

end BookSide
end TopOfBook
