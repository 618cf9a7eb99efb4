import TopOfBook.Config.Binning
import TopOfBook.Market.Timestamp

/-! The configuration of one set of feed statistics, with the defaults for the whole feed and
the narrower ones for a single instrument. -/

namespace TopOfBook

structure StatisticsConfig where
  processingLatency : BinningChoice
  interarrival : BinningChoice
  /-- Seconds of feed time between two progress lines. -/
  reportingIntervalSeconds : UInt64
  maxPerSecond : UInt64
  maxPerMillisecond : UInt64
  maxPerMicrosecond : UInt64
deriving DecidableEq, Repr

namespace StatisticsConfig

/-- Steps of one, two and five from a nanosecond to a second. -/
def defaultInterarrivalCuts : List UInt64 :=
  0 :: ((List.range 9).flatMap fun decade =>
    let unit := Nat.pow 10 decade
    [Nat.toUInt64 unit, Nat.toUInt64 (2 * unit), Nat.toUInt64 (5 * unit)]) ++ [nanosPerSecond]

/-- For the whole feed: latencies up to a millisecond, a progress line every ten minutes. -/
def aggregate : StatisticsConfig where
  processingLatency := .integerRange 0 nanosPerMilli
  interarrival := .explicitCuts defaultInterarrivalCuts
  reportingIntervalSeconds := 600
  maxPerSecond := 1000000
  maxPerMillisecond := 100000
  maxPerMicrosecond := 100000

/-- For a single instrument: narrow ranges, and a reporting interval of a day, which in
practice means no progress lines. -/
def perInstrument : StatisticsConfig where
  processingLatency := .integerRange 0 (10 * nanosPerMicro)
  interarrival := .explicitCuts defaultInterarrivalCuts
  reportingIntervalSeconds := 86400
  maxPerSecond := 1000
  maxPerMillisecond := 100
  maxPerMicrosecond := 10

/-- A histogram of rates needs a largest rate above one. -/
def checkRateBound (field : String) (bound : UInt64) : Except ConfigFault Unit :=
  if bound ≤ 1 then .error (.notAboveOne field bound) else .ok ()

def validate (c : StatisticsConfig) : Except ConfigFault Unit := do
  c.processingLatency.validate
  c.interarrival.validate
  if c.reportingIntervalSeconds = 0 then throw (.notPositive "reporting_interval_secs")
  checkRateBound "max_messages_per_second" c.maxPerSecond
  checkRateBound "max_messages_per_millisecond" c.maxPerMillisecond
  checkRateBound "max_messages_per_microsecond" c.maxPerMicrosecond

/-! ### JSON -/

def fieldNames : List String :=
  ["processing_latency", "interarrival", "reporting_interval_secs", "max_messages_per_second",
    "max_messages_per_millisecond", "max_messages_per_microsecond"]

def toJson (c : StatisticsConfig) : Json :=
  .record [("processing_latency", c.processingLatency.toJson),
    ("interarrival", c.interarrival.toJson),
    ("reporting_interval_secs", .nat c.reportingIntervalSeconds.toNat),
    ("max_messages_per_second", .nat c.maxPerSecond.toNat),
    ("max_messages_per_millisecond", .nat c.maxPerMillisecond.toNat),
    ("max_messages_per_microsecond", .nat c.maxPerMicrosecond.toNat)]

/-- A field that is left out has its aggregate default, wherever the record stands. -/
def ofJson? (around : Nat) (v : Json) : Option StatisticsConfig := do
  let r ← Json.Record.read? fieldNames v
  let latency ← r.defaulted "processing_latency" (BinningChoice.ofJson? (around + 1))
    aggregate.processingLatency
  let interarrival ← r.defaulted "interarrival" (BinningChoice.ofJson? (around + 1))
    aggregate.interarrival
  let interval ← r.defaulted "reporting_interval_secs" Json.toUInt64?
    aggregate.reportingIntervalSeconds
  let second ← r.defaulted "max_messages_per_second" Json.toUInt64? aggregate.maxPerSecond
  let milli ← r.defaulted "max_messages_per_millisecond" Json.toUInt64? aggregate.maxPerMillisecond
  let micro ← r.defaulted "max_messages_per_microsecond" Json.toUInt64? aggregate.maxPerMicrosecond
  some ⟨latency, interarrival, interval, second, milli, micro⟩

end StatisticsConfig
end TopOfBook
