import TopOfBook.Event.Basic
import TopOfBook.Market.Json

/-! Events in JSON. An event is an alternative, named by its field `type`. -/

namespace TopOfBook

namespace Header

def fieldNames : List String := ["recv_ts", "feed_ts", "sequence", "offset"]

def toJson (h : Header) : Json :=
  .record [("recv_ts", h.received.toJson), ("feed_ts", h.fed.toJson),
    ("sequence", .nat h.sequence.toNat), ("offset", .nat h.offset.toNat)]

/-- Whatever is left out is zero. -/
def ofJson? (v : Json) : Option Header := do
  let r ← Json.Record.read? fieldNames v
  let received ← r.defaulted "recv_ts" Timestamp.ofJson? .zero
  let fed ← r.defaulted "feed_ts" Timestamp.ofJson? .zero
  let sequence ← r.defaulted "sequence" Json.toUInt64? 0
  let offset ← r.defaulted "offset" Json.toUInt64? 0
  some ⟨received, fed, sequence, offset⟩

end Header

namespace Kind

def toJson (k : Kind) : Json := .text k.name

def ofJson? (v : Json) : Option Kind := (v.toName? false).bind ofName?

/-- The fields behind `type`, in the order in which they are written. -/
def fieldNames : Kind → List String
  | directory => ["header", "symbol", "name"]
  | addOrder => ["header", "symbol", "order_id", "side", "price", "quantity"]
  | addOrderAttributed =>
    ["header", "symbol", "order_id", "side", "price", "quantity", "attribution"]
  | orderExecuted => ["header", "symbol", "order_id", "quantity", "match_number"]
  | orderExecutedWithPrice =>
    ["header", "symbol", "order_id", "quantity", "match_number", "price", "printable"]
  | orderCancel => ["header", "symbol", "order_id", "quantity"]
  | orderDelete => ["header", "symbol", "order_id"]
  | orderReplace =>
    ["header", "symbol", "original_order_id", "new_order_id", "price", "quantity"]
  | unknown => ["header", "message_type"]

end Kind

/-! ### Writing -/

/-- The fields of an order as an event carries them. -/
def Order.jsonFields (o : Order) : List (String × Json) :=
  [("symbol", o.instrument.toJson), ("order_id", .nat o.id.toNat), ("side", o.side.toJson),
    ("price", o.price.toJson), ("quantity", o.quantity.toJson)]

/-- The fields of a message behind its header. -/
def Message.jsonFields : Message → List (String × Json)
  | directory instrument name => [("symbol", instrument.toJson), ("name", .text name)]
  | addOrder order => order.jsonFields
  | addOrderAttributed order attribution =>
    order.jsonFields ++ [("attribution", .text attribution)]
  | orderExecuted instrument id quantity matchNumber =>
    [("symbol", instrument.toJson), ("order_id", .nat id.toNat), ("quantity", quantity.toJson),
      ("match_number", .nat matchNumber.toNat)]
  | orderExecutedWithPrice instrument id quantity matchNumber price printable =>
    [("symbol", instrument.toJson), ("order_id", .nat id.toNat), ("quantity", quantity.toJson),
      ("match_number", .nat matchNumber.toNat), ("price", price.toJson),
      ("printable", .bool printable)]
  | orderCancel instrument id quantity =>
    [("symbol", instrument.toJson), ("order_id", .nat id.toNat), ("quantity", quantity.toJson)]
  | orderDelete instrument id => [("symbol", instrument.toJson), ("order_id", .nat id.toNat)]
  | orderReplace instrument oldId newId price quantity =>
    [("symbol", instrument.toJson), ("original_order_id", .nat oldId.toNat),
      ("new_order_id", .nat newId.toNat), ("price", price.toJson),
      ("quantity", quantity.toJson)]
  | unknown code => [("message_type", .nat code.toNat)]

def Event.toJson (e : Event) : Json :=
  .record (("type", e.kind.toJson) :: ("header", e.header.toJson) :: e.message.jsonFields)

/-! ### Reading -/

def Order.ofFields? (r : Json.Record) : Option Order := do
  let instrument ← r.required "symbol" Instrument.ofJson?
  let id ← r.required "order_id" Json.toUInt64?
  let side ← r.required "side" (Side.ofJson? true)
  let price ← r.required "price" Price.ofJson?
  let quantity ← r.required "quantity" Quantity.ofJson?
  some ⟨id, instrument, side, price, quantity⟩

/-- The name of a directory entry, the match number of an execution and whether it is printed
may be left out. -/
def Message.ofFields? (r : Json.Record) : Kind → Option Message
  | .directory => do
    let instrument ← r.required "symbol" Instrument.ofJson?
    let name ← r.defaulted "name" Json.toText? ""
    some (directory instrument name)
  | .addOrder => (Order.ofFields? r).map addOrder
  | .addOrderAttributed => do
    let order ← Order.ofFields? r
    let attribution ← r.required "attribution" Json.toText?
    some (addOrderAttributed order attribution)
  | .orderExecuted => do
    let instrument ← r.required "symbol" Instrument.ofJson?
    let id ← r.required "order_id" Json.toUInt64?
    let quantity ← r.required "quantity" Quantity.ofJson?
    let matchNumber ← r.defaulted "match_number" Json.toUInt64? 0
    some (orderExecuted instrument id quantity matchNumber)
  | .orderExecutedWithPrice => do
    let instrument ← r.required "symbol" Instrument.ofJson?
    let id ← r.required "order_id" Json.toUInt64?
    let quantity ← r.required "quantity" Quantity.ofJson?
    let matchNumber ← r.defaulted "match_number" Json.toUInt64? 0
    let price ← r.required "price" Price.ofJson?
    let printable ← r.defaulted "printable" Json.toBool? false
    some (orderExecutedWithPrice instrument id quantity matchNumber price printable)
  | .orderCancel => do
    let instrument ← r.required "symbol" Instrument.ofJson?
    let id ← r.required "order_id" Json.toUInt64?
    let quantity ← r.required "quantity" Quantity.ofJson?
    some (orderCancel instrument id quantity)
  | .orderDelete => do
    let instrument ← r.required "symbol" Instrument.ofJson?
    let id ← r.required "order_id" Json.toUInt64?
    some (orderDelete instrument id)
  | .orderReplace => do
    let instrument ← r.required "symbol" Instrument.ofJson?
    let oldId ← r.required "original_order_id" Json.toUInt64?
    let newId ← r.required "new_order_id" Json.toUInt64?
    let price ← r.required "price" Price.ofJson?
    let quantity ← r.required "quantity" Quantity.ofJson?
    some (orderReplace instrument oldId newId price quantity)
  | .unknown => do
    let code ← r.required "message_type" Json.toUInt8?
    some (unknown code)

def Event.ofJson? (v : Json) : Option Event := do
  let (name, v) ← v.alternative? "type" 0
  let kind ← Kind.ofName? name
  let r ← Json.Record.read? kind.fieldNames v
  let header ← r.required "header" Header.ofJson?
  let message ← Message.ofFields? r kind
  some ⟨header, message⟩

end TopOfBook
