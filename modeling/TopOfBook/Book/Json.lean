import TopOfBook.Book.Quote
import TopOfBook.Market.Json

/-! Levels and quotes in JSON. -/

namespace TopOfBook

namespace Level

def toJson (l : Level) : Json :=
  .record [("price", l.price.toJson), ("quantity", l.quantity.toJson)]

def ofJson? (v : Json) : Option Level := do
  let r ← Json.Record.read? ["price", "quantity"] v
  let price ← r.required "price" Price.ofJson?
  let quantity ← r.required "quantity" Quantity.ofJson?
  some ⟨price, quantity⟩

end Level

namespace Quote

def toJson (q : Quote) : Json :=
  .record [("bid", .ofOption Level.toJson q.bid), ("ask", .ofOption Level.toJson q.ask)]

def ofJson? (v : Json) : Option Quote := do
  let r ← Json.Record.read? ["bid", "ask"] v
  let bid ← r.optional "bid" Level.ofJson?
  let ask ← r.optional "ask" Level.ofJson?
  some ⟨bid, ask⟩

end Quote
end TopOfBook
