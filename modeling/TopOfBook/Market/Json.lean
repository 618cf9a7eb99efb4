import TopOfBook.Json.Record
import TopOfBook.Market.Instrument
import TopOfBook.Market.Price
import TopOfBook.Market.Quantity
import TopOfBook.Market.Timestamp

/-! Market values in JSON: bare integers, and the side by its name. -/

namespace TopOfBook

namespace Price

def toJson (p : Price) : Json := .int p.ticks.toInt

def ofJson? (v : Json) : Option Price := v.toInt64?.map Price.mk

end Price

namespace Quantity

def toJson (q : Quantity) : Json := .nat q.toNat

def ofJson? (v : Json) : Option Quantity := v.toUInt64?.map Quantity.mk

end Quantity

namespace Timestamp

def toJson (t : Timestamp) : Json := .nat t.nanos.toNat

def ofJson? (v : Json) : Option Timestamp := v.toUInt64?.map Timestamp.mk

end Timestamp

namespace Instrument

def toJson (i : Instrument) : Json := .nat i.id.toNat

def ofJson? (v : Json) : Option Instrument := v.toUInt32?.map Instrument.mk

end Instrument

namespace Side

def toJson (s : Side) : Json := .text s.name

/-- With `lenient` the long form of the name may hold an empty object. -/
def ofJson? (lenient : Bool) (v : Json) : Option Side := do
  match ← v.toName? lenient with
  | "buy" => some buy
  | "sell" => some sell
  | _ => none

end Side
end TopOfBook
