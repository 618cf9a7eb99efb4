import TopOfBook.Json.Number

/-! Records, alternatives and names in JSON. A record is an object, or a bare list of its fields
in their order; an alternative is a record with one more field that names it. -/

namespace TopOfBook.Json

/-! ### Records -/

/-- The known fields of a record that were written. `positional` when they came as a list. -/
structure Record where
  positional : Bool
  fields : List (String × Json)

/-- Every field name must be a text; unknown fields are passed over, known ones may be written
only once. A list may stop early but not go on beyond the last field. -/
def Record.read? (names : List String) : Json → Option Record
  | .object fields => do
    let named ← fields.mapM fun f => f.1.map fun name => (name, f.2)
    let known := named.filter fun f => names.contains f.1
    if (known.map Prod.fst).Nodup then some ⟨false, known⟩ else none
  | .array items => if items.length ≤ names.length then some ⟨true, names.zip items⟩ else none
  | _ => none

namespace Record

def find? (r : Record) (name : String) : Option Json := r.fields.lookup name

/-- A field that must be there. -/
def required {α : Type} (r : Record) (name : String) (read : Json → Option α) : Option α :=
  (r.find? name).bind read

/-- A field with a value of its own when it is left out. -/
def defaulted {α : Type} (r : Record) (name : String) (read : Json → Option α) (default : α) :
    Option α :=
  match r.find? name with
  | none => some default
  | some v => read v

end Record

/-- `null` for nothing. -/
def nullable {α : Type} (read : Json → Option α) : Json → Option (Option α)
  | .null => some none
  | v => (read v).map some

/-- A field that may be `null`, or left out where fields go by name. -/
def Record.optional {α : Type} (r : Record) (name : String) (read : Json → Option α) :
    Option (Option α) :=
  match r.find? name with
  | none => if r.positional then none else some none
  | some v => nullable read v

/-! ### Simple values -/

def toBool? : Json → Option Bool
  | .bool b => some b
  | _ => none

def toText? : Json → Option String
  | .string s => s
  | _ => none

/-- A natural number below a bound. -/
def toNatBelow? (bound : Nat) : Json → Option Nat
  | .number l => l.toNatBelow? bound
  | _ => none

def toUInt8? (v : Json) : Option UInt8 := (toNatBelow? UInt8.size v).map Nat.toUInt8

def toUInt32? (v : Json) : Option UInt32 := (toNatBelow? UInt32.size v).map Nat.toUInt32

def toUInt64? (v : Json) : Option UInt64 := (toNatBelow? UInt64.size v).map Nat.toUInt64

/-- A count that fits a 64-bit word. -/
def toCount? (v : Json) : Option Nat := toNatBelow? UInt64.size v

def toInt64? : Json → Option Int64
  | .number l => l.toInt64?
  | _ => none

def toFloat? : Json → Option Float
  | .number l => l.toFloat?
  | _ => none

def toList? {α : Type} (read : Json → Option α) : Json → Option (List α)
  | .array items => items.mapM read
  | _ => none

/-- A name out of a fixed choice: a string, or an object whose one field has the name and is
empty. With `lenient` an empty object is as good as `null` there. -/
def toName? (lenient : Bool) : Json → Option String
  | .string s => s
  | .object [(name, .null)] => name
  | .object [(name, .object [])] => if lenient then name else none
  | _ => none

/-! ### Alternatives -/

mutual
/-- No half surrogates, no number beyond the doubles, and no more than `depth` containers
inside one another. -/
def sound (depth : Nat) : Json → Bool
  | .null => true
  | .bool _ => true
  | .number l => l.isReadable
  | .string s => s.isSome
  | .array items =>
    match depth with
    | 0 => false
    | d + 1 => soundItems d items
  | .object fields =>
    match depth with
    | 0 => false
    | d + 1 => soundFields d fields

def soundItems (depth : Nat) : List Json → Bool
  | [] => true
  | v :: rest => sound depth v && soundItems depth rest

def soundFields (depth : Nat) : List (Option String × Json) → Bool
  | [] => true
  | (name, v) :: rest => name.isSome && sound depth v && soundFields depth rest
end

/-- Containers may be nested this deep where every value is looked at. -/
def nestingLimit : Nat := 127

/-- Splits an alternative into its name and the rest: the field `tag` of an object, which must
be there exactly once, or the first item of a list. All of it must be sound, unknown fields
included; `around` containers enclose it. -/
def alternative? (tag : String) (around : Nat) (v : Json) : Option (String × Json) :=
  if sound (nestingLimit - around) v then
    match v with
    | .object fields =>
      match fields.filter (fun f => f.1 == some tag) with
      | [(_, .string (some name))] => some (name, .object (fields.filter fun f => f.1 != some tag))
      | _ => none
    | .array (.string (some name) :: rest) => some (name, .array rest)
    | _ => none
  else none

end TopOfBook.Json
