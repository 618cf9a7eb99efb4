import TopOfBook.Engine.Desk
import TopOfBook.Engine.Outcome

/-! The books of all instruments and the live orders. A book is opened by the first event for
its instrument. Once an event contradicts the state, its instrument is closed to all further
ones until it is reset; the others go on. -/

namespace TopOfBook

/-- The two choices that bear on how events are applied. -/
structure Rules where
  executionPriceMode : ExecutionPriceMode
  /-- Compare the inside after every change, even one that cannot have moved it. -/
  alwaysRecompute : Bool
deriving DecidableEq, Repr

def EngineConfig.rules (c : EngineConfig) : Rules := ⟨c.executionPriceMode, c.alwaysRecompute⟩

structure Store where
  books : Std.ExtTreeMap Instrument Book
  orders : OrderTable

namespace Store

def empty : Store := ⟨∅, .empty⟩

def book? (s : Store) (i : Instrument) : Option Book := s.books[i]?

/-- The book of an instrument, an empty one where there is none yet. -/
def book (s : Store) (i : Instrument) : Book := (s.book? i).getD (.empty i)

def inside? (s : Store) (i : Instrument) : Option Quote := (s.book? i).map Book.inside

/-- The instruments with a book, ascending. -/
def instruments (s : Store) : List Instrument := s.books.keys

/-- The instruments with a corrupted book, ascending. -/
def corrupted (s : Store) : List Instrument :=
  s.instruments.filter fun i => (s.book i).isCorrupted

def putBook (s : Store) (i : Instrument) (b : Book) : Store :=
  { s with books := s.books.insert i b }

/-- Publishes the inside after an effect that calls for it. -/
def publish (rules : Rules) (b : Book) : Effect → Book × Option Quote
  | .nothing => (b, none)
  | .changed touched => if touched || rules.alwaysRecompute then b.publish else (b, none)

/-- Applies a message to the open book of an instrument. -/
def applyOpen (rules : Rules) (s : Store) (i : Instrument) (e : Event) : Store × Outcome :=
  match (Desk.mk (s.book i) s.orders).apply rules.executionPriceMode e.message with
  | (desk, .error fault) =>
    (⟨s.books.insert i (desk.book.markCorrupted fault), desk.orders⟩,
      .error (.integrity i e.header.sequence e.header.offset fault))
  | (desk, .ok effect) =>
    let (book, inside) := publish rules desk.book effect
    (⟨s.books.insert i book, desk.orders⟩, .ok (inside.map fun q => ⟨i, e.header, q⟩))

/-- Applies an event. One for no instrument does nothing. -/
def apply (rules : Rules) (s : Store) (e : Event) : Store × Outcome :=
  match e.instrument? with
  | none => (s, .ok none)
  | some i =>
    if (s.book i).isCorrupted then (s, .error (.corrupted i e.header.sequence))
    else applyOpen rules s i e

/-- Empties the book of an instrument and drops its live orders, so that it can be built anew.
Gives the number of orders dropped. -/
def reset (s : Store) (i : Instrument) : Store × Nat :=
  let (orders, dropped) := s.orders.purge i
  let books := match s.book? i with
    | none => s.books
    | some b => s.books.insert i b.clear
  (⟨books, orders⟩, dropped)

end Store
end TopOfBook
