import TopOfBook.Json.Literal

/-! JSON values as they are written: numbers are literals, fields keep their order and may be
repeated. -/

namespace TopOfBook

/-- A string or a field name is `none` when its escapes hold half of a surrogate pair: such a
string is well formed but denotes no text. -/
inductive Json
  | null
  | bool (value : Bool)
  | number (literal : Json.Literal)
  | string (text : Option String)
  | array (items : List Json)
  | object (fields : List (Option String × Json))
deriving Repr

namespace Json

def text (s : String) : Json := .string (some s)

def nat (n : Nat) : Json := .number (.ofNat n)

def int (i : Int) : Json := .number (.ofInt i)

/-- An object with the given fields in the given order. -/
def record (fields : List (String × Json)) : Json :=
  .object (fields.map fun f => (some f.1, f.2))

def ofOption {α : Type} (write : α → Json) : Option α → Json
  | none => .null
  | some a => write a

end Json
end TopOfBook
