import TopOfBook.Engine.Counters
import TopOfBook.Statistics.Depth
import TopOfBook.Statistics.Feed

/-! All figures of an engine at one moment, as a report to read and as JSON. -/

namespace TopOfBook

structure Metrics where
  counters : Counters
  latency : Snapshot
  interarrival : Snapshot
  perSecond : Summary
  perMillisecond : Summary
  perMicrosecond : Summary
  /-- Depths of books, where they are collected. -/
  depths : Option Snapshot
  liveOrders : Nat
  books : Nat
  corrupted : List Instrument

namespace Metrics

def of (counters : Counters) (s : FeedStatistics) (depths : Option DepthStatistics)
    (liveOrders books : Nat) (corrupted : List Instrument) : Metrics where
  counters := counters
  latency := s.latency.snapshot
  interarrival := s.interarrival.snapshot
  perSecond := s.perSecond.summary
  perMillisecond := s.perMillisecond.summary
  perMicrosecond := s.perMicrosecond.summary
  depths := depths.map fun d => d.depths.snapshot
  liveOrders := liveOrders
  books := books
  corrupted := corrupted

/-! ### The report -/

/-- One line for each kind of which there were events. -/
def kindLines (c : Counters) : List String :=
  Kind.all.filterMap fun kind =>
    if 0 < c.count kind then some ("  " ++ kind.name ++ ": " ++ Nat.repr (c.count kind))
    else none

/-- The lines of the report; empty ones stand before each section. -/
def reportLines (m : Metrics) : List String :=
  ["=== Inside Book Metrics ===",
    "Events: " ++ Nat.repr m.counters.events ++ " processed, " ++
      Nat.repr m.counters.insideChanges ++ " inside changes, " ++
      Nat.repr m.counters.integrityErrors ++ " integrity errors, " ++
      Nat.repr m.counters.rejected ++ " rejected"] ++
  kindLines m.counters ++
  ["Books: " ++ Nat.repr m.books ++ " instruments, " ++ Nat.repr m.liveOrders ++
      " live orders, " ++ Nat.repr m.corrupted.length ++ " corrupted"] ++
  (if m.corrupted.isEmpty then []
   else ["  corrupted: " ++ ", ".intercalate (m.corrupted.map Instrument.render)]) ++
  ["", "Processing Latency (ns):", "  " ++ m.latency.summary.render] ++
  (if m.latency.overflow = 0 then []
   else ["  " ++ Nat.repr m.latency.overflow ++ " samples above histogram range"]) ++
  ["", "Inter-arrival Time (ns):", "  " ++ m.interarrival.summary.render,
    "", "Event Rates:",
    "  per second:      " ++ m.perSecond.render,
    "  per millisecond: " ++ m.perMillisecond.render,
    "  per microsecond: " ++ m.perMicrosecond.render] ++
  (match m.depths with
   | none => []
   | some d => ["", "Book Depth (levels):", "  " ++ d.summary.render])

/-- The report, every line with its end. -/
def report (m : Metrics) : String := String.join (m.reportLines.map (· ++ "\n"))

/-! ### JSON -/

def toJson (m : Metrics) : Json :=
  .record [("counters", m.counters.toJson), ("processing_latency", m.latency.toJson),
    ("interarrival", m.interarrival.toJson), ("rate_per_second", m.perSecond.toJson),
    ("rate_per_millisecond", m.perMillisecond.toJson),
    ("rate_per_microsecond", m.perMicrosecond.toJson),
    ("book_depth", .ofOption Snapshot.toJson m.depths), ("live_orders", .nat m.liveOrders),
    ("books", .nat m.books), ("corrupted", .array (m.corrupted.map Instrument.toJson))]

def fieldNames : List String :=
  ["counters", "processing_latency", "interarrival", "rate_per_second", "rate_per_millisecond",
    "rate_per_microsecond", "book_depth", "live_orders", "books", "corrupted"]

/-- The rates and the depths may be left out. -/
def ofJson? (v : Json) : Option Metrics := do
  let r ← Json.Record.read? fieldNames v
  let counters ← r.required "counters" Counters.ofJson?
  let latency ← r.required "processing_latency" Snapshot.ofJson?
  let interarrival ← r.required "interarrival" Snapshot.ofJson?
  let perSecond ← r.defaulted "rate_per_second" Summary.ofJson? .zero
  let perMillisecond ← r.defaulted "rate_per_millisecond" Summary.ofJson? .zero
  let perMicrosecond ← r.defaulted "rate_per_microsecond" Summary.ofJson? .zero
  let depths ← r.defaulted "book_depth" (Json.nullable Snapshot.ofJson?) none
  let liveOrders ← r.required "live_orders" Json.toCount?
  let books ← r.required "books" Json.toCount?
  let corrupted ← r.required "corrupted" (Json.toList? Instrument.ofJson?)
  some ⟨counters, latency, interarrival, perSecond, perMillisecond, perMicrosecond, depths,
    liveOrders, books, corrupted⟩

end Metrics
end TopOfBook
