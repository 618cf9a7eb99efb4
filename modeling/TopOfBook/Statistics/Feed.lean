import TopOfBook.Binning.Chosen
import TopOfBook.Config.Statistics
import TopOfBook.Rate.Distribution

/-! Statistics of a stream of events: how long each took to process, how far apart they are,
and how many came in a second, a millisecond and a microsecond. All but the first run on the
clock of the feed, and so do the progress lines. -/

namespace TopOfBook

/-- A histogram of nanoseconds. -/
abbrev DurationHistogram := Histogram ChosenBinning UInt64

namespace DurationHistogram

def make (choice : BinningChoice) : Except BinningFault DurationHistogram :=
  (ChosenBinning.ofChoice choice).map Histogram.empty

end DurationHistogram

structure FeedStatistics where
  latency : DurationHistogram
  interarrival : DurationHistogram
  perSecond : RateDistribution
  perMillisecond : RateDistribution
  perMicrosecond : RateDistribution
  lastFeed : Option Timestamp
  /-- The feed time of the last progress line, or of the first event. -/
  lastReport : Option Timestamp
  /-- Nanoseconds of feed time between progress lines. -/
  interval : UInt64

/-- A line about the feed so far. -/
structure Progress where
  events : Nat
  latencyP50 : Float
  latencyP99 : Float
  latencyMax : Float
  interarrivalP50 : Float
  perSecondMax : Float
  perMillisecondMax : Float
  perMicrosecondMax : Float

namespace FeedStatistics

/-- Seconds in nanoseconds, at most the largest 64-bit word. -/
def intervalOf (seconds : UInt64) : UInt64 :=
  Nat.toUInt64 (min (seconds.toNat * nanosPerSecond.toNat) (UInt64.size - 1))

/-- Rates of a second are taken every millisecond, and so on down to a nanosecond. -/
def make (c : StatisticsConfig) : Except BinningFault FeedStatistics := do
  let latency ← DurationHistogram.make c.processingLatency
  let interarrival ← DurationHistogram.make c.interarrival
  let perSecond ← RateDistribution.make c.maxPerSecond nanosPerSecond nanosPerMilli
  let perMillisecond ← RateDistribution.make c.maxPerMillisecond nanosPerMilli nanosPerMicro
  let perMicrosecond ← RateDistribution.make c.maxPerMicrosecond nanosPerMicro 1
  return ⟨latency, interarrival, perSecond, perMillisecond, perMicrosecond, none, none,
    intervalOf c.reportingIntervalSeconds⟩

/-- The number of events sampled. -/
def events (s : FeedStatistics) : Nat := s.latency.samples

def progress (s : FeedStatistics) : Progress :=
  let latency := s.latency.summary
  { events := latency.samples
    latencyP50 := latency.p50
    latencyP99 := latency.p99
    latencyMax := latency.max
    interarrivalP50 := s.interarrival.summary.p50
    perSecondMax := s.perSecond.summary.max
    perMillisecondMax := s.perMillisecond.summary.max
    perMicrosecondMax := s.perMicrosecond.summary.max }

/-- Counts an event in the histograms. The first one has no distance to an earlier one. -/
def count : FeedStatistics → Timestamp → UInt64 → FeedStatistics
  | ⟨latency, interarrival, perSecond, perMillisecond, perMicrosecond, lastFeed, lastReport,
      interval⟩, t, nanos =>
    ⟨latency.add nanos,
      match lastFeed with
      | none => interarrival
      | some last => interarrival.add (t.since last),
      perSecond.sample t, perMillisecond.sample t, perMicrosecond.sample t, some t, lastReport,
      interval⟩

/-- A progress line is due when the feed clock is a whole interval past the last one. -/
def report (s : FeedStatistics) (t : Timestamp) : FeedStatistics × Option Progress :=
  let last := s.lastReport.getD t
  if s.interval ≤ t.since last then ({ s with lastReport := some t }, some s.progress)
  else ({ s with lastReport := some last }, none)

/-- Takes an event with its feed time and the nanoseconds it took to process. -/
def sample (s : FeedStatistics) (t : Timestamp) (nanos : UInt64) :
    FeedStatistics × Option Progress :=
  (s.count t nanos).report t

/-- Adds the samples of another stream. None is made up for the time between the streams, and
the windows and progress lines go on as they were. -/
def merge (a b : FeedStatistics) : Except HistogramFault FeedStatistics := do
  let latency ← a.latency.merge b.latency
  let interarrival ← a.interarrival.merge b.interarrival
  let perSecond ← a.perSecond.merge b.perSecond
  let perMillisecond ← a.perMillisecond.merge b.perMillisecond
  let perMicrosecond ← a.perMicrosecond.merge b.perMicrosecond
  let lastFeed :=
    match a.lastFeed, b.lastFeed with
    | some x, some y => some (x.latest y)
    | x, y => x <|> y
  return { a with latency, interarrival, perSecond, perMillisecond, perMicrosecond, lastFeed }

def reset (s : FeedStatistics) : FeedStatistics where
  latency := s.latency.reset
  interarrival := s.interarrival.reset
  perSecond := s.perSecond.reset
  perMillisecond := s.perMillisecond.reset
  perMicrosecond := s.perMicrosecond.reset
  lastFeed := none
  lastReport := none
  interval := s.interval

/-! ### CSV -/

def csvHeader : String :=
  "name," ++ ",".intercalate
    (["latency", "interarrival", "rate_sec", "rate_msec", "rate_usec"].map Summary.csvColumns)

def csvRow (s : FeedStatistics) (name : String) : String :=
  ",".intercalate (name :: [s.latency.summary, s.interarrival.summary, s.perSecond.summary,
    s.perMillisecond.summary, s.perMicrosecond.summary].map Summary.csvFields)

end FeedStatistics
end TopOfBook
