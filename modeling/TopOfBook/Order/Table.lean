import TopOfBook.Book.Fault

/-! Live orders by their number: what is needed to take them off the book later. -/

namespace TopOfBook

structure Order where
  id : OrderId
  instrument : Instrument
  side : Side
  price : Price
  /-- Shares that are left, at least one while the order is live. -/
  quantity : Quantity
deriving DecidableEq, Repr

/-- What a reduction did to an order. -/
structure Reduction where
  /-- The order as it is afterwards, without shares when it is gone. -/
  order : Order
  /-- The shares taken off. -/
  reduced : Quantity
  removed : Bool
deriving DecidableEq, Repr

structure OrderTable where
  byId : Std.ExtTreeMap OrderId Order

namespace OrderTable

def empty : OrderTable := ⟨∅⟩

def find? (t : OrderTable) (id : OrderId) : Option Order := t.byId[id]?

def contains (t : OrderTable) (id : OrderId) : Bool := t.byId.contains id

def size (t : OrderTable) : Nat := t.byId.size

def isEmpty (t : OrderTable) : Bool := t.byId.isEmpty

/-- All live orders, by their number. -/
def toList (t : OrderTable) : List Order := t.byId.toList.map Prod.snd

def register (t : OrderTable) (order : Order) : Except BookFault OrderTable :=
  if order.quantity.isZero then .error (.zeroQuantity order.id)
  else if t.contains order.id then .error (.duplicateOrder order.id)
  else .ok ⟨t.byId.insert order.id order⟩

def lookup (t : OrderTable) (id : OrderId) : Except BookFault Order :=
  match t.find? id with
  | none => .error (.unknownOrder id)
  | some order => .ok order

/-- Takes shares off an order, which goes away when none are left. -/
def reduce (t : OrderTable) (id : OrderId) (quantity : Quantity) :
    Except BookFault (OrderTable × Reduction) :=
  match t.find? id with
  | none => .error (.unknownOrder id)
  | some order =>
    match order.quantity.sub? quantity with
    | none => .error (.overReduction id quantity order.quantity)
    | some remaining =>
      let order := { order with quantity := remaining }
      if remaining.isZero then .ok (⟨t.byId.erase id⟩, ⟨order, quantity, true⟩)
      else .ok (⟨t.byId.insert id order⟩, ⟨order, quantity, false⟩)

/-- Takes an order out with all its shares. -/
def remove (t : OrderTable) (id : OrderId) : Except BookFault (OrderTable × Reduction) :=
  match t.find? id with
  | none => .error (.unknownOrder id)
  | some order =>
    .ok (⟨t.byId.erase id⟩, ⟨{ order with quantity := .zero }, order.quantity, true⟩)

/-- The live orders of one side of an instrument. -/
def onSide (t : OrderTable) (instrument : Instrument) (side : Side) : List Order :=
  t.toList.filter fun order => order.instrument = instrument ∧ order.side = side

/-- The shares left on one side of an instrument. -/
def sideTotal (t : OrderTable) (instrument : Instrument) (side : Side) : Nat :=
  Quantity.total ((t.onSide instrument side).map Order.quantity)

/-- Forgets all orders of an instrument, and says how many there were. -/
def purge (t : OrderTable) (instrument : Instrument) : OrderTable × Nat :=
  let kept : OrderTable := ⟨t.byId.filter fun _ order => order.instrument ≠ instrument⟩
  (kept, t.size - kept.size)

end OrderTable
end TopOfBook
