import TopOfBook.Engine.Dispatcher

/-! Several dispatchers that share the work: each serves the instruments whose code leaves the
same remainder, and events for no instrument go to the first. Each publishes a copy of its
statistics now and then, and at the end their reports are put together. -/

namespace TopOfBook

/-- What a worker hands out. -/
inductive WorkerOutput
  | update (u : InsideUpdate)
  | refusal (r : Refusal)
deriving DecidableEq, Repr

def WorkerOutput.instrument : WorkerOutput → Instrument
  | update u => u.instrument
  | refusal r => r.instrument

/-- What an outcome hands out: nothing when the inside did not change. -/
def WorkerOutput.ofOutcome? : Outcome → Option WorkerOutput
  | .ok none => none
  | .ok (some u) => some (update u)
  | .error r => some (refusal r)

structure Worker where
  dispatcher : Dispatcher
  processed : Nat
  /-- The statistics published last. -/
  published : Option FeedStatistics
  /-- All that was handed out, in order. -/
  outputs : Array WorkerOutput

/-- Why workers cannot be started. -/
inductive StartFault
  | invalid (fault : ConfigFault)
  | building (shard : Nat) (fault : BinningFault)
deriving DecidableEq, Repr

def StartFault.message : StartFault → String
  | invalid _ => "invalid engine configuration"
  | building shard _ => "building dispatcher for shard " ++ Nat.repr shard

namespace Worker

/-- The events between two publications of the statistics. -/
def publishInterval : Nat := 65536

def take : Worker → Event → UInt64 → Worker
  | ⟨dispatcher, processed, published, outputs⟩, e, latency =>
    let (dispatcher, step) := dispatcher.process e latency
    let processed := processed + 1
    let published :=
      if processed % publishInterval = 0 then some dispatcher.statistics else published
    let outputs :=
      match WorkerOutput.ofOutcome? step.outcome with
      | none => outputs
      | some o => outputs.push o
    ⟨dispatcher, processed, published, outputs⟩

end Worker

structure Workers where
  all : Array Worker

namespace Workers

/-- All workers begin alike, so the first is the one that cannot be built. -/
def start (c : EngineConfig) : Except StartFault Workers :=
  match c.validate with
  | .error fault => .error (.invalid fault)
  | .ok () =>
    match Dispatcher.make c with
    | .error fault => .error (.building 0 fault)
    | .ok dispatcher => .ok ⟨.replicate c.shards.toNat ⟨dispatcher, 0, none, #[]⟩⟩

def size (w : Workers) : Nat := w.all.size

/-- The worker for an event. -/
def route (shards : Nat) (e : Event) : Nat :=
  (e.instrument?.bind fun i => i.worker? shards).getD 0

/-- The given worker takes an event. -/
def takeAt : Workers → Nat → Event → UInt64 → Workers
  | ⟨all⟩, shard, e, latency => ⟨all.modify shard fun worker => worker.take e latency⟩

/-- An event goes to its worker. -/
def submit (w : Workers) (e : Event) (latency : UInt64) : Workers :=
  w.takeAt (route w.size e) e latency

/-- All outputs, worker by worker. -/
def outputs (w : Workers) : List WorkerOutput :=
  w.all.toList.flatMap fun worker => worker.outputs.toList

/-- The statistics published last, added up over the workers. -/
def live (w : Workers) : Except HistogramFault (Option FeedStatistics) :=
  w.all.toList.foldlM (fun merged worker =>
    match merged, worker.published with
    | merged, none => .ok merged
    | none, some s => .ok (some s)
    | some m, some s => (m.merge s).map some) none

/-- The reports of the workers, added up from the first to the last. -/
def finish (w : Workers) : Except HistogramFault (Option Report) :=
  w.all.toList.foldlM (fun merged worker =>
    match merged with
    | none => .ok (some worker.dispatcher.report)
    | some m =>
      match m.merge worker.dispatcher.report with
      | (sum, .ok ()) => .ok (some sum)
      | (_, .error fault) => .error fault) none

end Workers
end TopOfBook
