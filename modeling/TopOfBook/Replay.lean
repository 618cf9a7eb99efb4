import TopOfBook.Engine.Workers
import TopOfBook.Event.Stream

/-! Replaying a stream of events through one dispatcher, or through several workers. The clock
is a parameter: it is read when an event is received and again when it is handed on. -/

namespace TopOfBook

/-- Why a replay stopped. -/
inductive ReplayFault
  | building (fault : BinningFault)
  | starting (fault : StartFault)
  | line (item : StreamItem)
  | merging (fault : HistogramFault)

namespace ReplayFault

def message : ReplayFault → String
  | building fault => fault.message
  | starting fault => fault.message
  | line item => item.message?.getD ""
  | merging _ => "merging shard reports"

end ReplayFault

/-- The updates up to the end of the stream, or up to the line at which it broke off. -/
structure Replay where
  updates : List InsideUpdate
  ending : Except ReplayFault Report

namespace Replay

variable {m : Type → Type} [Monad m]

/-- Hands the events of a stream on, one after the other, up to the first line that is none. -/
def feed {σ : Type} (clock : m Timestamp) (take : σ → Event → UInt64 → σ) :
    σ → List StreamItem → m (σ × Option StreamItem)
  | s, [] => pure (s, none)
  | s, .event e :: rest => do
    let received ← clock
    let handedOn ← clock
    feed clock take (take s (e.receive received) (handedOn.since received)) rest
  | s, item :: _ => pure (s, some item)

/-- A dispatcher with the updates it has given, last first. -/
def takeSingle : Dispatcher × List InsideUpdate → Event → UInt64 → Dispatcher × List InsideUpdate
  | (d, updates), e, latency =>
    match d.process e latency with
    | (d, ⟨.ok (some u), _⟩) => (d, u :: updates)
    | (d, _) => (d, updates)

/-- Through one dispatcher: the updates before a broken line are kept. -/
def single (clock : m Timestamp) (c : EngineConfig) (items : List StreamItem) : m Replay :=
  match Dispatcher.make c with
  | .error fault => pure ⟨[], .error (.building fault)⟩
  | .ok dispatcher => do
    let ((d, updates), broken) ← feed clock takeSingle (dispatcher, []) items
    match broken with
    | some item => pure ⟨updates.reverse, .error (.line item)⟩
    | none => pure ⟨updates.reverse, .ok d.report⟩

/-- Through several workers: after a broken line there are no updates at all. -/
def sharded (clock : m Timestamp) (c : EngineConfig) (items : List StreamItem) : m Replay :=
  match Workers.start c with
  | .error fault => pure ⟨[], .error (.starting fault)⟩
  | .ok workers => do
    let (workers, broken) ← feed clock Workers.submit workers items
    match broken, workers.finish with
    | some item, _ => pure ⟨[], .error (.line item)⟩
    | none, .error fault => pure ⟨[], .error (.merging fault)⟩
    | none, .ok none => pure ⟨[], .error (.starting (.invalid (.invalidShards 0 256)))⟩
    | none, .ok (some report) =>
      pure ⟨workers.outputs.filterMap fun
        | .update u => some u
        | .refusal _ => none, .ok report⟩

def run (clock : m Timestamp) (c : EngineConfig) (items : List StreamItem) : m Replay :=
  if c.shards = 1 then single clock c items else sharded clock c items

/-- The updates as lines, every one with its end. -/
def text (r : Replay) : String := String.join (r.updates.map fun u => u.render ++ "\n")

end Replay
end TopOfBook
