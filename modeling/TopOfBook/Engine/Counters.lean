import TopOfBook.Engine.Outcome

/-! Counts of events by their kind and by what they led to. -/

namespace TopOfBook

structure Counters where
  events : Nat
  byKind : Vector Nat 9
  insideChanges : Nat
  integrityErrors : Nat
  rejected : Nat
deriving DecidableEq

namespace Counters

def zero : Counters := ⟨0, .replicate 9 0, 0, 0, 0⟩

/-- Counts an event of a kind. -/
def recordEvent (c : Counters) (kind : Kind) : Counters :=
  { c with
    events := c.events + 1
    byKind := c.byKind.set kind.index (c.byKind[kind.index] + 1) }

/-- Counts what an event led to. -/
def recordOutcome (c : Counters) : Outcome → Counters
  | .ok none => c
  | .ok (some _) => { c with insideChanges := c.insideChanges + 1 }
  | .error (.integrity ..) => { c with integrityErrors := c.integrityErrors + 1 }
  | .error (.corrupted ..) => { c with rejected := c.rejected + 1 }

/-- The events of a kind. -/
def count (c : Counters) (kind : Kind) : Nat := c.byKind[kind.index]

def merge (a b : Counters) : Counters where
  events := a.events + b.events
  byKind := a.byKind.zipWith (· + ·) b.byKind
  insideChanges := a.insideChanges + b.insideChanges
  integrityErrors := a.integrityErrors + b.integrityErrors
  rejected := a.rejected + b.rejected

def toJson (c : Counters) : Json :=
  .record [("events", .nat c.events), ("by_kind", .array (c.byKind.toList.map Json.nat)),
    ("inside_changes", .nat c.insideChanges), ("integrity_errors", .nat c.integrityErrors),
    ("rejected", .nat c.rejected)]

/-- Exactly one count for each kind. -/
def kindCounts? (v : Json) : Option (Vector Nat 9) := do
  let counts ← Json.toList? Json.toCount? v
  if h : counts.toArray.size = 9 then some ⟨counts.toArray, h⟩ else none

def ofJson? (v : Json) : Option Counters := do
  let r ← Json.Record.read?
    ["events", "by_kind", "inside_changes", "integrity_errors", "rejected"] v
  let events ← r.required "events" Json.toCount?
  let byKind ← r.required "by_kind" kindCounts?
  let insideChanges ← r.required "inside_changes" Json.toCount?
  let integrityErrors ← r.required "integrity_errors" Json.toCount?
  let rejected ← r.required "rejected" Json.toCount?
  some ⟨events, byKind, insideChanges, integrityErrors, rejected⟩

end Counters
end TopOfBook
