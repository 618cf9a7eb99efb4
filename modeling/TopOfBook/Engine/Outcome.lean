import TopOfBook.Book.Json
import TopOfBook.Event.Json

/-! What an event leads to: a new inside, no change, or a refusal. -/

namespace TopOfBook

/-- A change of the inside of an instrument. -/
structure InsideUpdate where
  instrument : Instrument
  /-- The header of the event that changed it. -/
  header : Header
  inside : Quote
deriving DecidableEq, Repr

namespace InsideUpdate

/-- The feed time, the instrument and the new inside, with blanks between them. -/
def render (u : InsideUpdate) : String :=
  Nat.repr u.header.fed.nanos.toNat ++ " " ++ u.instrument.render ++ " " ++ u.inside.render

def toJson (u : InsideUpdate) : Json :=
  .record [("symbol", u.instrument.toJson), ("header", u.header.toJson),
    ("inside", u.inside.toJson)]

def ofJson? (v : Json) : Option InsideUpdate := do
  let r ← Json.Record.read? ["symbol", "header", "inside"] v
  let instrument ← r.required "symbol" Instrument.ofJson?
  let header ← r.required "header" Header.ofJson?
  let inside ← r.required "inside" Quote.ofJson?
  some ⟨instrument, header, inside⟩

end InsideUpdate

inductive Refusal
  /-- The event contradicts the state, and its instrument is corrupted from now on. -/
  | integrity (instrument : Instrument) (sequence offset : UInt64) (fault : BookFault)
  /-- The instrument was corrupted before. -/
  | corrupted (instrument : Instrument) (sequence : UInt64)
deriving DecidableEq, Repr

namespace Refusal

def instrument : Refusal → Instrument
  | integrity instrument _ _ _ => instrument
  | corrupted instrument _ => instrument

/-- The fault that corrupted the instrument, if this event brought it about. -/
def fault? : Refusal → Option BookFault
  | integrity _ _ _ fault => some fault
  | corrupted .. => none

def message : Refusal → String
  | integrity instrument sequence offset fault =>
    instrument.render ++ " corrupted at sequence " ++ Nat.repr sequence.toNat ++ " (offset " ++
      Nat.repr offset.toNat ++ "): " ++ fault.message
  | corrupted instrument sequence =>
    instrument.render ++ " is corrupted, event at sequence " ++ Nat.repr sequence.toNat ++
      " rejected"

end Refusal

abbrev Outcome := Except Refusal (Option InsideUpdate)

end TopOfBook
