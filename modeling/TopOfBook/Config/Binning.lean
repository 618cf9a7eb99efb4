import TopOfBook.Config.Fault
import TopOfBook.Json.Record

/-! How the bins of a histogram are chosen in a configuration. -/

namespace TopOfBook

/-- One bin for each integer of a range, or bins between cut points. -/
inductive BinningChoice
  | integerRange (min max : UInt64)
  | explicitCuts (cuts : List UInt64)
deriving DecidableEq, Repr

namespace BinningChoice

/-- The first two neighbouring cuts of which the second is not larger. -/
def firstUnsorted : List UInt64 → Option (UInt64 × UInt64)
  | a :: b :: rest => if b ≤ a then some (a, b) else firstUnsorted (b :: rest)
  | _ => none

/-- A range must not be inverted; cuts must be two at least, and strictly increasing. -/
def validate : BinningChoice → Except ConfigFault Unit
  | integerRange min max =>
    if max < min then .error (.invertedRange min max) else .ok ()
  | explicitCuts cuts =>
    if cuts.length < 2 then .error (.tooFewCuts cuts.length)
    else match firstUnsorted cuts with
      | some (previous, next) => .error (.unsortedCuts previous next)
      | none => .ok ()

/-! ### JSON -/

def toJson : BinningChoice → Json
  | integerRange min max =>
    .record [("strategy", .text "integer_range"), ("min", .nat min.toNat), ("max", .nat max.toNat)]
  | explicitCuts cuts =>
    .record [("strategy", .text "explicit_cuts"),
      ("cuts", .array (cuts.map fun c => .nat c.toNat))]

/-- An alternative named by its field `strategy`, inside of `around` other containers. -/
def ofJson? (around : Nat) (v : Json) : Option BinningChoice := do
  let (strategy, v) ← v.alternative? "strategy" around
  match strategy with
  | "integer_range" => do
    let r ← Json.Record.read? ["min", "max"] v
    let min ← r.required "min" Json.toUInt64?
    let max ← r.required "max" Json.toUInt64?
    some (integerRange min max)
  | "explicit_cuts" => do
    let r ← Json.Record.read? ["cuts"] v
    let cuts ← r.required "cuts" (Json.toList? Json.toUInt64?)
    some (explicitCuts cuts)
  | _ => none

end BinningChoice
end TopOfBook
