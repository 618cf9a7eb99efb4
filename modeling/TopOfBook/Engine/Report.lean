import TopOfBook.Engine.Metrics

/-! What an engine knows at the end of a run, and how the reports of several are put together. -/

namespace TopOfBook

structure Report where
  statistics : FeedStatistics
  /-- Statistics by instrument, where they are collected. -/
  byInstrument : Std.ExtTreeMap Instrument FeedStatistics
  depths : Option DepthStatistics
  counters : Counters
  liveOrders : Nat
  books : Nat
  /-- Corrupted instruments, ascending. -/
  corrupted : List Instrument

namespace Report

/-- Adds statistics by instrument one by one, as far as the first that cannot be added. -/
def mergeInstruments (mine : Std.ExtTreeMap Instrument FeedStatistics) :
    List (Instrument × FeedStatistics) →
      Std.ExtTreeMap Instrument FeedStatistics × Except HistogramFault Unit
  | [] => (mine, .ok ())
  | (i, theirs) :: rest =>
    match mine[i]? with
    | none => mergeInstruments (mine.insert i theirs) rest
    | some s =>
      match s.merge theirs with
      | .error fault => (mine, .error fault)
      | .ok sum => mergeInstruments (mine.insert i sum) rest

def mergeDepths : Option DepthStatistics → Option DepthStatistics →
    Except HistogramFault (Option DepthStatistics)
  | mine, none => .ok mine
  | none, some theirs => .ok (some theirs)
  | some mine, some theirs => (mine.merge theirs).map some

/-- The instruments of both lists, ascending and each of them once. -/
def mergeCorrupted (mine theirs : List Instrument) : List Instrument :=
  ((mine ++ theirs).mergeSort fun a b => a.id ≤ b.id).eraseReps

/-- Adds another report: the statistics of the feed, those by instrument, the depths, and then
all that cannot fail. What was added before a failure stays. -/
def merge (a b : Report) : Report × Except HistogramFault Unit :=
  match a.statistics.merge b.statistics with
  | .error fault => (a, .error fault)
  | .ok statistics =>
    match mergeInstruments a.byInstrument b.byInstrument.toList with
    | (byInstrument, .error fault) => ({ a with statistics, byInstrument }, .error fault)
    | (byInstrument, .ok ()) =>
      match mergeDepths a.depths b.depths with
      | .error fault => ({ a with statistics, byInstrument }, .error fault)
      | .ok depths =>
        ({ statistics, byInstrument, depths
           counters := a.counters.merge b.counters
           liveOrders := a.liveOrders + b.liveOrders
           books := a.books + b.books
           corrupted := mergeCorrupted a.corrupted b.corrupted }, .ok ())

def metrics (r : Report) : Metrics :=
  .of r.counters r.statistics r.depths r.liveOrders r.books r.corrupted

/-- The name of the row for the whole feed. -/
def aggregateName : String := "__aggregate__"

/-- A header, a row for each instrument, and the row for the whole feed. -/
def csv (r : Report) : String :=
  let rows := r.byInstrument.toList.map fun (i, s) => s.csvRow i.render
  String.join ((FeedStatistics.csvHeader :: (rows ++ [r.statistics.csvRow aggregateName])).map
    (· ++ "\n"))

/-- A header and one row, or nothing where depths are not collected. -/
def depthCsv? (r : Report) : Option String :=
  r.depths.map fun d =>
    DepthStatistics.csvHeader ++ "\n" ++ d.csvRow aggregateName ++ "\n"

end Report
end TopOfBook
