import TopOfBook.Json.Token
import TopOfBook.Json.Value

/-! Reading a JSON text. The tokens drive a machine with a stack of the arrays and objects that
are still open, so there is no bound on nesting. -/

namespace TopOfBook.Json

/-- A container that is still open, its finished parts last first. -/
inductive Frame
  | array (done : List Json)
  | object (done : List (Option String × Json)) (name : Option String)

/-- What the machine waits for, inside the open containers. -/
inductive State
  | value (stack : List Frame)
  | firstItem (stack : List Frame)
  | firstName (stack : List Frame)
  | nextName (done : List (Option String × Json)) (stack : List Frame)
  | colon (name : Option String) (done : List (Option String × Json)) (stack : List Frame)
  | after (finished : Json) (stack : List Frame)

def State.beginValue (stack : List Frame) : Token → Option State
  | .null => some (.after .null stack)
  | .bool b => some (.after (.bool b) stack)
  | .number l => some (.after (.number l) stack)
  | .string s => some (.after (.string s) stack)
  | .openArray => some (.firstItem stack)
  | .openObject => some (.firstName stack)
  | _ => none

def State.step : State → Token → Option State
  | .value stack, t => beginValue stack t
  | .firstItem stack, .closeArray => some (.after (.array []) stack)
  | .firstItem stack, t => beginValue (.array [] :: stack) t
  | .firstName stack, .closeObject => some (.after (.object []) stack)
  | .firstName stack, .string name => some (.colon name [] stack)
  | .nextName done stack, .string name => some (.colon name done stack)
  | .colon name done stack, .colon => some (.value (.object done name :: stack))
  | .after v (.array done :: stack), .comma => some (.value (.array (v :: done) :: stack))
  | .after v (.array done :: stack), .closeArray =>
    some (.after (.array (v :: done).reverse) stack)
  | .after v (.object done name :: stack), .comma => some (.nextName ((name, v) :: done) stack)
  | .after v (.object done name :: stack), .closeObject =>
    some (.after (.object ((name, v) :: done).reverse) stack)
  | _, _ => none

/-- Runs the machine over tokens. -/
def State.run (s : State) (tokens : List Token) : Option State := tokens.foldlM step s

/-- The one value that a whole list of tokens stands for. -/
def ofTokens? (tokens : List Token) : Option Json :=
  match (State.value []).run tokens with
  | some (.after v []) => some v
  | _ => none

/-- Reads a text that holds one value and nothing else but blanks. -/
def read? (text : String) : Option Json := (Token.scan text.toList).bind ofTokens?

end TopOfBook.Json
