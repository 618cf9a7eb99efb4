import TopOfBook.Book.Quote

/-! The book of one instrument: both sides, the inside that was published last, and the fault
that corrupted it, if any. -/

namespace TopOfBook

structure Book where
  instrument : Instrument
  bids : BookSide .buy
  asks : BookSide .sell
  lastInside : Quote
  corruption : Option BookFault

namespace Book

def empty (instrument : Instrument) : Book := ⟨instrument, .empty, .empty, .empty, none⟩

/-- One side of the book. -/
def onSide (b : Book) : (s : Side) → BookSide s
  | .buy => b.bids
  | .sell => b.asks

/-- Puts another side in its place. -/
def setSide (b : Book) : (s : Side) → BookSide s → Book
  | .buy, bids => { b with bids }
  | .sell, asks => { b with asks }

/-- Adds shares on a side, and says whether that touched its best level. -/
def add (b : Book) (s : Side) (price : Price) (quantity : Quantity) :
    Except BookFault (Book × Bool) :=
  ((b.onSide s).add price quantity).map fun (levels, touched) => (b.setSide s levels, touched)

/-- Takes shares off a level of a side, and says whether that touched its best level. -/
def reduce (b : Book) (s : Side) (price : Price) (quantity : Quantity) :
    Except BookFault (Book × Bool) :=
  ((b.onSide s).reduce price quantity).map fun (levels, touched) => (b.setSide s levels, touched)

/-- The inside that the levels give. -/
def inside (b : Book) : Quote := ⟨b.bids.best?, b.asks.best?⟩

/-- Remembers the inside, and gives it when it differs from the one published last. -/
def publish (b : Book) : Book × Option Quote :=
  let inside := b.inside
  if inside = b.lastInside then (b, none) else ({ b with lastInside := inside }, some inside)

/-- The number of levels of both sides. -/
def depth (b : Book) : Nat := b.bids.depth + b.asks.depth

/-- At most so many levels of each side, best first. -/
def top (b : Book) (n : Nat) : List Level × List Level := (b.bids.top n, b.asks.top n)

def isCorrupted (b : Book) : Bool := b.corruption.isSome

/-- The first fault stays. -/
def markCorrupted (b : Book) (fault : BookFault) : Book :=
  { b with corruption := b.corruption <|> some fault }

/-- Empties both sides, forgets the inside and takes the mark away. -/
def clear (b : Book) : Book := empty b.instrument

end Book
end TopOfBook
