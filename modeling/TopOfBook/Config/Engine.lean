import TopOfBook.Config.Statistics
import TopOfBook.Json.Reader

/-! The configuration of an engine: its defaults, its checks, and how it is read from a file. -/

namespace TopOfBook

/-- Which level an execution at an explicit price reduces: the one at that price, or the one
where the order rests. -/
inductive ExecutionPriceMode
  | eventPrice
  | restingPrice
deriving DecidableEq, Repr

structure EngineConfig where
  statistics : StatisticsConfig
  instrumentStatistics : StatisticsConfig
  enableInstrumentStatistics : Bool
  shards : UInt64
  channelCapacity : UInt64
  /-- Compare the inside after every change, even one that cannot have moved it. -/
  alwaysRecompute : Bool
  executionPriceMode : ExecutionPriceMode
  enableDepthStatistics : Bool
  maxBookDepth : UInt64
  logLevel : String
deriving DecidableEq, Repr

namespace EngineConfig

def standard : EngineConfig where
  statistics := .aggregate
  instrumentStatistics := .perInstrument
  enableInstrumentStatistics := false
  shards := 1
  channelCapacity := 16384
  alwaysRecompute := false
  executionPriceMode := .eventPrice
  enableDepthStatistics := false
  maxBookDepth := 8192
  logLevel := "info"

def maxShards : UInt64 := 256

def validate (c : EngineConfig) : Except ConfigFault Unit := do
  c.statistics.validate
  c.instrumentStatistics.validate
  if c.shards = 0 ∨ maxShards < c.shards then throw (.invalidShards c.shards maxShards)
  if c.channelCapacity = 0 then throw (.notPositive "channel_capacity")
  if c.maxBookDepth = 0 then throw (.notPositive "max_book_depth")

end EngineConfig

/-! ### JSON -/

namespace ExecutionPriceMode

def name : ExecutionPriceMode → String
  | eventPrice => "event_price"
  | restingPrice => "resting_price"

def ofJson? (v : Json) : Option ExecutionPriceMode := do
  match ← v.toName? false with
  | "event_price" => some eventPrice
  | "resting_price" => some restingPrice
  | _ => none

end ExecutionPriceMode

namespace EngineConfig

def fieldNames : List String :=
  ["stats", "symbol_stats", "enable_symbol_stats", "shards", "channel_capacity",
    "always_recompute_inside", "execution_price_mode", "enable_book_depth_stats",
    "max_book_depth", "log_level"]

def toJson (c : EngineConfig) : Json :=
  .record [("stats", c.statistics.toJson),
    ("symbol_stats", c.instrumentStatistics.toJson),
    ("enable_symbol_stats", .bool c.enableInstrumentStatistics),
    ("shards", .nat c.shards.toNat),
    ("channel_capacity", .nat c.channelCapacity.toNat),
    ("always_recompute_inside", .bool c.alwaysRecompute),
    ("execution_price_mode", .text c.executionPriceMode.name),
    ("enable_book_depth_stats", .bool c.enableDepthStatistics),
    ("max_book_depth", .nat c.maxBookDepth.toNat),
    ("log_level", .text c.logLevel)]

/-- Every field may be left out and then has its default. -/
def ofJson? (v : Json) : Option EngineConfig := do
  let r ← Json.Record.read? fieldNames v
  let statistics ← r.defaulted "stats" (StatisticsConfig.ofJson? 1) standard.statistics
  let perInstrument ← r.defaulted "symbol_stats" (StatisticsConfig.ofJson? 1)
    standard.instrumentStatistics
  let enableInstruments ← r.defaulted "enable_symbol_stats" Json.toBool?
    standard.enableInstrumentStatistics
  let shards ← r.defaulted "shards" Json.toUInt64? standard.shards
  let capacity ← r.defaulted "channel_capacity" Json.toUInt64? standard.channelCapacity
  let recompute ← r.defaulted "always_recompute_inside" Json.toBool? standard.alwaysRecompute
  let mode ← r.defaulted "execution_price_mode" ExecutionPriceMode.ofJson?
    standard.executionPriceMode
  let depths ← r.defaulted "enable_book_depth_stats" Json.toBool? standard.enableDepthStatistics
  let maxDepth ← r.defaulted "max_book_depth" Json.toUInt64? standard.maxBookDepth
  let level ← r.defaulted "log_level" Json.toText? standard.logLevel
  some ⟨statistics, perInstrument, enableInstruments, shards, capacity, recompute, mode, depths,
    maxDepth, level⟩

/-! ### Files -/

/-- The stage at which reading a configuration file stopped. -/
inductive LoadFault
  | unreadable
  | malformed
  | invalid (fault : ConfigFault)
deriving DecidableEq, Repr

def LoadFault.message (path : String) : LoadFault → String
  | unreadable => "reading config file " ++ path
  | malformed => "parsing config file " ++ path
  | invalid _ => "validating config file " ++ path

/-- A configuration that passes its checks, from the text of a file. -/
def ofText (text : String) : Except LoadFault EngineConfig :=
  match (Json.read? text).bind ofJson? with
  | none => .error .malformed
  | some config =>
    match config.validate with
    | .error fault => .error (.invalid fault)
    | .ok () => .ok config

/-- The same from the bytes of a file, `none` for a file that cannot be opened. -/
def load (bytes : Option ByteArray) : Except LoadFault EngineConfig :=
  match bytes.bind String.fromUTF8? with
  | none => .error .unreadable
  | some text => ofText text

end EngineConfig
end TopOfBook
