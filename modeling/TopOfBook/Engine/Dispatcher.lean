import TopOfBook.Engine.Report
import TopOfBook.Engine.Store

/-! A dispatcher applies events to a store and keeps statistics of them. -/

namespace TopOfBook

/-- Statistics by instrument, each begun as a copy of the same empty ones. -/
structure InstrumentStatistics where
  prototype : FeedStatistics
  byInstrument : Std.ExtTreeMap Instrument FeedStatistics

namespace InstrumentStatistics

def sample : InstrumentStatistics → Instrument → Timestamp → UInt64 →
    InstrumentStatistics × Option Progress
  | ⟨prototype, byInstrument⟩, i, t, nanos =>
    let (s, progress) := (byInstrument.getD i prototype).sample t nanos
    (⟨prototype, byInstrument.insert i s⟩, progress)

end InstrumentStatistics

structure Dispatcher where
  rules : Rules
  store : Store
  statistics : FeedStatistics
  instrumentStatistics : Option InstrumentStatistics
  depths : Option DepthStatistics
  counters : Counters

/-- What became of an event, and the progress lines due after it: that of the whole feed, then
that of the instrument. -/
structure Step where
  outcome : Outcome
  progress : List Progress

namespace Dispatcher

/-- An optional part, built only when it is enabled. -/
def whenEnabled {α : Type} (enabled : Bool) (build : Except BinningFault α) :
    Except BinningFault (Option α) :=
  if enabled then build.map some else .ok none

def make (c : EngineConfig) : Except BinningFault Dispatcher := do
  let instrumentStatistics ← whenEnabled c.enableInstrumentStatistics
    ((FeedStatistics.make c.instrumentStatistics).map fun prototype => ⟨prototype, ∅⟩)
  let statistics ← FeedStatistics.make c.statistics
  let depths ← whenEnabled c.enableDepthStatistics (DepthStatistics.make c.maxBookDepth)
  return ⟨c.rules, .empty, statistics, instrumentStatistics, depths, .zero⟩

/-- The depth of a book is sampled after each message that may change it and was not refused. -/
def sampleDepth (store : Store) (e : Event) (outcome : Outcome) (d : DepthStatistics) :
    DepthStatistics :=
  match outcome with
  | .error _ => d
  | .ok _ =>
    match e.instrument?.bind store.book? with
    | some b => if e.isMutation then d.sample b.depth else d
    | none => d

/-- Samples an event for its instrument, where that is wanted. -/
def sampleInstrument (e : Event) (latency : UInt64) :
    Option InstrumentStatistics → Option InstrumentStatistics × Option Progress
  | none => (none, none)
  | some s =>
    match e.instrument? with
    | none => (some s, none)
    | some i =>
      let (s, progress) := s.sample i e.header.fed latency
      (some s, progress)

/-- Applies an event that took so many nanoseconds to be processed. The latency counts whatever
the outcome. -/
def process : Dispatcher → Event → UInt64 → Dispatcher × Step
  | ⟨rules, store, statistics, instrumentStatistics, depths, counters⟩, e, latency =>
    let (store, outcome) := store.apply rules e
    let counters := (counters.recordEvent e.kind).recordOutcome outcome
    let depths := depths.map (sampleDepth store e outcome)
    let (statistics, progress) := statistics.sample e.header.fed latency
    let (instrumentStatistics, instrumentProgress) :=
      sampleInstrument e latency instrumentStatistics
    (⟨rules, store, statistics, instrumentStatistics, depths, counters⟩,
      ⟨outcome, progress.toList ++ instrumentProgress.toList⟩)

/-- Applies events in their order, all with the same latency. -/
def processAll (d : Dispatcher) (latency : UInt64) : List Event → Dispatcher × List Step
  | [] => (d, [])
  | e :: rest =>
    let (d, step) := d.process e latency
    let (d, steps) := d.processAll latency rest
    (d, step :: steps)

/-- Applies events in their order, each with its latency, and hands what comes of one to a callback
before the next is applied. What the callbacks keep is threaded through. Gives the number of events
processed. -/
def processEach {σ : Type} (onUpdate : σ → InsideUpdate → σ) (onRefusal : σ → Refusal → σ) :
    Dispatcher → σ → List (Event × UInt64) → Dispatcher × σ × Nat
  | d, kept, [] => (d, kept, 0)
  | d, kept, (e, latency) :: rest =>
    let (d, step) := d.process e latency
    let kept :=
      match step.outcome with
      | .ok (some u) => onUpdate kept u
      | .ok none => kept
      | .error r => onRefusal kept r
    let (d, kept, processed) := processEach onUpdate onRefusal d kept rest
    (d, kept, processed + 1)

/-- Drops the book and the live orders of an instrument, and says how many orders there were. -/
def resetInstrument (d : Dispatcher) (i : Instrument) : Dispatcher × Nat :=
  let (store, dropped) := d.store.reset i
  ({ d with store }, dropped)

def statisticsOf? (d : Dispatcher) (i : Instrument) : Option FeedStatistics :=
  d.instrumentStatistics.bind fun s => s.byInstrument[i]?

def report (d : Dispatcher) : Report where
  statistics := d.statistics
  byInstrument := d.instrumentStatistics.elim ∅ InstrumentStatistics.byInstrument
  depths := d.depths
  counters := d.counters
  liveOrders := d.store.orders.size
  books := d.store.books.size
  corrupted := d.store.corrupted

def metrics (d : Dispatcher) : Metrics := d.report.metrics

end Dispatcher
end TopOfBook
