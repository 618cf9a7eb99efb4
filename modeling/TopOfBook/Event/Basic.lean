import TopOfBook.Market.Timestamp
import TopOfBook.Order.Table

/-! Feed events: a header with two clocks, and one of nine messages. A directory entry and a
message that is not understood never touch a book. -/

namespace TopOfBook

structure Header where
  /-- The local clock on receipt; processing latency counts from here. -/
  received : Timestamp
  /-- The clock of the feed. -/
  fed : Timestamp
  /-- The number of the message in the feed. -/
  sequence : UInt64
  /-- Where the message starts in its source, in bytes. -/
  offset : UInt64
deriving DecidableEq, Repr, Inhabited

inductive Message
  | directory (instrument : Instrument) (name : String)
  | addOrder (order : Order)
  | addOrderAttributed (order : Order) (attribution : String)
  /-- An execution at the price where the order rests. -/
  | orderExecuted (instrument : Instrument) (id : OrderId) (quantity : Quantity)
      (matchNumber : UInt64)
  | orderExecutedWithPrice (instrument : Instrument) (id : OrderId) (quantity : Quantity)
      (matchNumber : UInt64) (price : Price) (printable : Bool)
  /-- Some shares are taken off the order. -/
  | orderCancel (instrument : Instrument) (id : OrderId) (quantity : Quantity)
  | orderDelete (instrument : Instrument) (id : OrderId)
  /-- A new order takes the side of the old one, at its own price. -/
  | orderReplace (instrument : Instrument) (oldId newId : OrderId) (price : Price)
      (quantity : Quantity)
  | unknown (code : UInt8)
deriving DecidableEq, Repr

structure Event where
  header : Header
  message : Message
deriving DecidableEq, Repr

inductive Kind
  | directory
  | addOrder
  | addOrderAttributed
  | orderExecuted
  | orderExecutedWithPrice
  | orderCancel
  | orderDelete
  | orderReplace
  | unknown
deriving DecidableEq, Repr

namespace Kind

/-- All kinds, in the order of their numbers. -/
def all : List Kind :=
  [directory, addOrder, addOrderAttributed, orderExecuted, orderExecutedWithPrice, orderCancel,
    orderDelete, orderReplace, unknown]

/-- The number of the kind. -/
def index : Kind → Fin 9
  | directory => 0
  | addOrder => 1
  | addOrderAttributed => 2
  | orderExecuted => 3
  | orderExecutedWithPrice => 4
  | orderCancel => 5
  | orderDelete => 6
  | orderReplace => 7
  | unknown => 8

/-- The name of the kind in written events. -/
def name : Kind → String
  | directory => "directory"
  | addOrder => "add_order"
  | addOrderAttributed => "add_order_attributed"
  | orderExecuted => "order_executed"
  | orderExecutedWithPrice => "order_executed_with_price"
  | orderCancel => "order_cancel"
  | orderDelete => "order_delete"
  | orderReplace => "order_replace"
  | unknown => "unknown"

def ofName? (name : String) : Option Kind := all.find? fun kind => kind.name = name

/-- The bytes of a message of this kind in the binary feed. -/
def messageSize : Kind → UInt64
  | directory => 39
  | addOrder => 36
  | addOrderAttributed => 40
  | orderExecuted => 31
  | orderExecutedWithPrice => 36
  | orderCancel => 23
  | orderDelete => 19
  | orderReplace => 35
  | unknown => 1

end Kind

namespace Message

/-- The instrument a message is for; one that is not understood is for none. -/
def instrument? : Message → Option Instrument
  | directory instrument _ => some instrument
  | addOrder order => some order.instrument
  | addOrderAttributed order _ => some order.instrument
  | orderExecuted instrument _ _ _ => some instrument
  | orderExecutedWithPrice instrument _ _ _ _ _ => some instrument
  | orderCancel instrument _ _ => some instrument
  | orderDelete instrument _ => some instrument
  | orderReplace instrument _ _ _ _ => some instrument
  | unknown _ => none

def kind : Message → Kind
  | directory .. => .directory
  | addOrder .. => .addOrder
  | addOrderAttributed .. => .addOrderAttributed
  | orderExecuted .. => .orderExecuted
  | orderExecutedWithPrice .. => .orderExecutedWithPrice
  | orderCancel .. => .orderCancel
  | orderDelete .. => .orderDelete
  | orderReplace .. => .orderReplace
  | unknown .. => .unknown

/-- Whether the message can change a book. -/
def isMutation : Message → Bool
  | directory .. => false
  | unknown .. => false
  | _ => true

end Message

namespace Event

def instrument? (e : Event) : Option Instrument := e.message.instrument?

def kind (e : Event) : Kind := e.message.kind

def isMutation (e : Event) : Bool := e.message.isMutation

end Event

/-- Receives an event by the local clock. One that came with the local clock alone keeps that
as its feed time. -/
def Header.receive (h : Header) (now : Timestamp) : Header :=
  { h with
    fed := if h.fed = .zero then h.received else h.fed
    received := now }

def Event.receive (e : Event) (now : Timestamp) : Event := { e with header := e.header.receive now }

end TopOfBook
