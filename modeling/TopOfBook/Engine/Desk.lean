import TopOfBook.Book.Basic
import TopOfBook.Config.Engine
import TopOfBook.Event.Basic

/-! The book of one instrument beside the table of all live orders. Every message changes the
table first and the book after it; where the book refuses, the table stays changed. -/

namespace TopOfBook

structure Desk where
  book : Book
  orders : OrderTable

/-- What a message did to the book: nothing, or a change that may have touched a best level. -/
inductive Effect
  | nothing
  | changed (touched : Bool)
deriving DecidableEq, Repr

namespace Desk

/-- The order goes into the table, then its shares onto their level. -/
def add (d : Desk) (order : Order) : Desk × Except BookFault Effect :=
  match d.orders.register order with
  | .error fault => (d, .error fault)
  | .ok orders =>
    match d.book.add order.side order.price order.quantity with
    | .error fault => ({ d with orders }, .error fault)
    | .ok (book, touched) => (⟨book, orders⟩, .ok (.changed touched))

/-- Shares come off the order, all of them when no quantity is given, and then off the level
where it rests, or off the one at the given price. -/
def reduce (d : Desk) (id : OrderId) (quantity : Option Quantity) (price : Option Price) :
    Desk × Except BookFault Effect :=
  match d.orders.lookup id with
  | .error fault => (d, .error fault)
  | .ok order =>
    if order.instrument ≠ d.book.instrument then
      (d, .error (.instrumentMismatch id order.instrument d.book.instrument))
    else
      match quantity.elim (d.orders.remove id) (d.orders.reduce id) with
      | .error fault => (d, .error fault)
      | .ok (orders, reduction) =>
        if reduction.reduced.isZero then ({ d with orders }, .ok .nothing)
        else
          match d.book.reduce order.side (price.getD order.price) reduction.reduced with
          | .error fault => ({ d with orders }, .error fault)
          | .ok (book, touched) => (⟨book, orders⟩, .ok (.changed touched))

/-- Why an order cannot be replaced, if it cannot. -/
def replaceFault? (d : Desk) (old : Order) (newId : OrderId) (quantity : Quantity) :
    Option BookFault :=
  if old.instrument ≠ d.book.instrument then
    some (.instrumentMismatch old.id old.instrument d.book.instrument)
  else if d.orders.contains newId then some (.duplicateOrder newId)
  else if quantity.isZero then some (.zeroQuantity newId)
  else none

/-- The old order goes, the new one comes in its place on the same side. What can be wrong with
the two orders is looked at before anything is changed, what can be wrong with the levels is
not. -/
def replace (d : Desk) (oldId newId : OrderId) (price : Price) (quantity : Quantity) :
    Desk × Except BookFault Effect :=
  match d.orders.lookup oldId with
  | .error fault => (d, .error fault)
  | .ok old =>
    match d.replaceFault? old newId quantity with
    | some fault => (d, .error fault)
    | none =>
      match d.orders.remove old.id with
      | .error fault => (d, .error fault)
      | .ok (orders, removed) =>
        match orders.register ⟨newId, old.instrument, old.side, price, quantity⟩ with
        | .error fault => ({ d with orders }, .error fault)
        | .ok orders =>
          match d.book.reduce old.side old.price removed.reduced with
          | .error fault => ({ d with orders }, .error fault)
          | .ok (book, _) =>
            match book.add old.side price quantity with
            | .error fault => (⟨book, orders⟩, .error fault)
            | .ok (book, _) => (⟨book, orders⟩, .ok (.changed true))

/-- Applies a message for the instrument of the book. -/
def apply (d : Desk) (mode : ExecutionPriceMode) : Message → Desk × Except BookFault Effect
  | .addOrder order => d.add order
  | .addOrderAttributed order _ => d.add order
  | .orderExecuted _ id quantity _ => d.reduce id (some quantity) none
  | .orderExecutedWithPrice _ id quantity _ price _ =>
    d.reduce id (some quantity) (if mode = .eventPrice then some price else none)
  | .orderCancel _ id quantity => d.reduce id (some quantity) none
  | .orderDelete _ id => d.reduce id none none
  | .orderReplace _ oldId newId price quantity => d.replace oldId newId price quantity
  | .directory .. => (d, .ok .nothing)
  | .unknown .. => (d, .ok .nothing)

end Desk
end TopOfBook
