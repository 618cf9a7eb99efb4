import TopOfBook.Config.Engine
import TopOfBook.Proofs.JsonRecords

/-!
Configurations that are written in part. An omitted field has its default: at the top the one of
the standard configuration; in either set of statistics the one for the whole feed, since both
are read by the same reader. So a field omitted from the statistics of single instruments does
not get the narrow value that it has when all of these statistics are omitted.
-/

namespace TopOfBook

/-! ### Binnings -/

namespace BinningChoice

theorem plain_toJson (b : BinningChoice) : b.toJson.Plain := by
  cases b with
  | integerRange min max =>
    refine .record ?_
    simp only [List.forall_mem_cons]
    exact ⟨.text _, .nat _, .nat _, List.forall_mem_nil _⟩
  | explicitCuts cuts =>
    refine .record ?_
    simp only [List.forall_mem_cons]
    refine ⟨.text _, .array fun v hv => ?_, List.forall_mem_nil _⟩
    obtain ⟨c, -, rfl⟩ := List.mem_map.1 hv
    exact .nat _

/-- A record with a list in it is two containers deep. -/
theorem sound_toJson (b : BinningChoice) (depth : Nat) :
    Json.sound (depth + 2) b.toJson = true := by
  cases b with
  | integerRange min max =>
    simp only [toJson, Json.record, List.map_cons, List.map_nil, Json.sound, Json.soundFields,
      Json.sound_nat min.toNat_lt, Json.sound_nat max.toNat_lt]
    rfl
  | explicitCuts cuts =>
    have hitems : Json.soundItems depth (cuts.map fun c => .nat c.toNat) = true := by
      rw [Json.soundItems_eq, List.all_map, List.all_eq_true]
      exact fun c _ => Json.sound_nat c.toNat_lt depth
    simp only [toJson, Json.record, List.map_cons, List.map_nil, Json.sound, Json.soundFields,
      hitems]
    rfl

theorem ofJson?_toJson {around : Nat} (h : around + 2 ≤ Json.nestingLimit) (b : BinningChoice) :
    ofJson? around b.toJson = some b := by
  have hsound : Json.sound (Json.nestingLimit - around) b.toJson = true := by
    obtain ⟨depth, hdepth⟩ := Nat.exists_eq_add_of_le h
    rw [show Json.nestingLimit - around = depth + 2 by omega]
    exact b.sound_toJson depth
  cases b with
  | integerRange min max =>
    rw [ofJson?, toJson]
    refine Json.bind_eq_some (Json.alternative?_record hsound (by simp)) ?_
    refine Json.bind_eq_some (Json.Record.read?_record (.refl _) (by decide)) ?_
    refine Json.bind_eq_some (Json.Record.required_eq_some rfl (Json.toUInt64?_nat min)) ?_
    exact Json.bind_eq_some (Json.Record.required_eq_some rfl (Json.toUInt64?_nat max)) rfl
  | explicitCuts cuts =>
    rw [ofJson?, toJson]
    refine Json.bind_eq_some (Json.alternative?_record hsound (by simp)) ?_
    refine Json.bind_eq_some (Json.Record.read?_record (.refl _) (by decide)) ?_
    exact Json.bind_eq_some (Json.Record.required_eq_some rfl
      (Json.toList?_map Json.toUInt64?_nat cuts)) rfl

end BinningChoice

/-! ### Statistics -/

namespace StatisticsConfig

/-- The defaults of `d` in the place of the omitted fields. -/
def withDefaults (c d : StatisticsConfig) (omitted : Finset String) : StatisticsConfig where
  processingLatency :=
    if "processing_latency" ∈ omitted then d.processingLatency else c.processingLatency
  interarrival := if "interarrival" ∈ omitted then d.interarrival else c.interarrival
  reportingIntervalSeconds :=
    if "reporting_interval_secs" ∈ omitted then d.reportingIntervalSeconds
    else c.reportingIntervalSeconds
  maxPerSecond := if "max_messages_per_second" ∈ omitted then d.maxPerSecond else c.maxPerSecond
  maxPerMillisecond :=
    if "max_messages_per_millisecond" ∈ omitted then d.maxPerMillisecond else c.maxPerMillisecond
  maxPerMicrosecond :=
    if "max_messages_per_microsecond" ∈ omitted then d.maxPerMicrosecond else c.maxPerMicrosecond

theorem plain_toJson (c : StatisticsConfig) : c.toJson.Plain := by
  refine .record ?_
  simp only [List.forall_mem_cons]
  exact ⟨c.processingLatency.plain_toJson, c.interarrival.plain_toJson, .nat _, .nat _, .nat _,
    .nat _, List.forall_mem_nil _⟩

theorem fieldNames_nodup : fieldNames.Nodup := by decide

/-- Whatever the record is for, the omitted fields have the defaults of the whole feed. -/
theorem ofJson?_without {around : Nat} (h : around + 3 ≤ Json.nestingLimit)
    (c : StatisticsConfig) (omitted : Finset String) :
    ofJson? around (c.toJson.without omitted) = some (c.withDefaults .aggregate omitted) := by
  have hbinning : around + 1 + 2 ≤ Json.nestingLimit := by omega
  rw [ofJson?, toJson]
  refine Json.bind_eq_some (Json.Record.read?_without fieldNames_nodup rfl omitted) ?_
  refine Json.bind_eq_some (Json.Record.defaulted_remaining omitted
    (BinningChoice.ofJson?_toJson hbinning c.processingLatency)) ?_
  refine Json.bind_eq_some (Json.Record.defaulted_remaining omitted
    (BinningChoice.ofJson?_toJson hbinning c.interarrival)) ?_
  refine Json.bind_eq_some (Json.Record.defaulted_remaining omitted
    (Json.toUInt64?_nat c.reportingIntervalSeconds)) ?_
  refine Json.bind_eq_some (Json.Record.defaulted_remaining omitted
    (Json.toUInt64?_nat c.maxPerSecond)) ?_
  refine Json.bind_eq_some (Json.Record.defaulted_remaining omitted
    (Json.toUInt64?_nat c.maxPerMillisecond)) ?_
  refine Json.bind_eq_some (Json.Record.defaulted_remaining omitted
    (Json.toUInt64?_nat c.maxPerMicrosecond)) ?_
  rfl

end StatisticsConfig

/-! ### The configuration of an engine -/

theorem ExecutionPriceMode.ofJson?_name (m : ExecutionPriceMode) :
    ofJson? (.text m.name) = some m := by
  cases m <;> rfl

/-- The fields that are left out, at the top and in either set of statistics. -/
structure OmittedFields where
  top : Finset String
  statistics : Finset String
  instrumentStatistics : Finset String

namespace EngineConfig

/-- The configuration as it is written, without some of its fields. -/
def partialJson (c : EngineConfig) (o : OmittedFields) : Json :=
  ((c.toJson.mapField "stats" (.without o.statistics)).mapField "symbol_stats"
    (.without o.instrumentStatistics)).without o.top

/-- The standard values in the place of the fields omitted at the top, and in the place of those
omitted from the statistics of instruments the values of `inner`. -/
def withDefaults (c : EngineConfig) (o : OmittedFields) (inner : StatisticsConfig) :
    EngineConfig where
  statistics :=
    if "stats" ∈ o.top then standard.statistics
    else c.statistics.withDefaults standard.statistics o.statistics
  instrumentStatistics :=
    if "symbol_stats" ∈ o.top then standard.instrumentStatistics
    else c.instrumentStatistics.withDefaults inner o.instrumentStatistics
  enableInstrumentStatistics :=
    if "enable_symbol_stats" ∈ o.top then standard.enableInstrumentStatistics
    else c.enableInstrumentStatistics
  shards := if "shards" ∈ o.top then standard.shards else c.shards
  channelCapacity :=
    if "channel_capacity" ∈ o.top then standard.channelCapacity else c.channelCapacity
  alwaysRecompute :=
    if "always_recompute_inside" ∈ o.top then standard.alwaysRecompute else c.alwaysRecompute
  executionPriceMode :=
    if "execution_price_mode" ∈ o.top then standard.executionPriceMode else c.executionPriceMode
  enableDepthStatistics :=
    if "enable_book_depth_stats" ∈ o.top then standard.enableDepthStatistics
    else c.enableDepthStatistics
  maxBookDepth := if "max_book_depth" ∈ o.top then standard.maxBookDepth else c.maxBookDepth
  logLevel := if "log_level" ∈ o.top then standard.logLevel else c.logLevel

theorem plain_toJson (c : EngineConfig) : c.toJson.Plain := by
  refine .record ?_
  simp only [List.forall_mem_cons]
  exact ⟨c.statistics.plain_toJson, c.instrumentStatistics.plain_toJson, .bool _, .nat _, .nat _,
    .bool _, .text _, .bool _, .nat _, .text _, List.forall_mem_nil _⟩

theorem plain_partialJson (c : EngineConfig) (o : OmittedFields) : (c.partialJson o).Plain := by
  refine (Json.Plain.mapField ?_ ?_ _).without _
  · exact c.plain_toJson.mapField (fun w hw => hw.without _) _
  · exact fun w hw => hw.without _

theorem fieldNames_nodup : fieldNames.Nodup := by decide

theorem partialJson_eq (c : EngineConfig) (o : OmittedFields) :
    c.partialJson o = (Json.record
      [("stats", c.statistics.toJson.without o.statistics),
        ("symbol_stats", c.instrumentStatistics.toJson.without o.instrumentStatistics),
        ("enable_symbol_stats", .bool c.enableInstrumentStatistics),
        ("shards", .nat c.shards.toNat),
        ("channel_capacity", .nat c.channelCapacity.toNat),
        ("always_recompute_inside", .bool c.alwaysRecompute),
        ("execution_price_mode", .text c.executionPriceMode.name),
        ("enable_book_depth_stats", .bool c.enableDepthStatistics),
        ("max_book_depth", .nat c.maxBookDepth.toNat),
        ("log_level", .text c.logLevel)]).without o.top := rfl

theorem ofJson?_partialJson (c : EngineConfig) (o : OmittedFields) :
    ofJson? (c.partialJson o) = some (c.withDefaults o .aggregate) := by
  have hnesting : 1 + 3 ≤ Json.nestingLimit := by decide
  rw [ofJson?, partialJson_eq]
  refine Json.bind_eq_some (Json.Record.read?_without fieldNames_nodup rfl o.top) ?_
  refine Json.bind_eq_some (Json.Record.defaulted_remaining o.top
    (c.statistics.ofJson?_without hnesting o.statistics)) ?_
  refine Json.bind_eq_some (Json.Record.defaulted_remaining o.top
    (c.instrumentStatistics.ofJson?_without hnesting o.instrumentStatistics)) ?_
  refine Json.bind_eq_some (Json.Record.defaulted_remaining o.top rfl) ?_
  refine Json.bind_eq_some (Json.Record.defaulted_remaining o.top
    (Json.toUInt64?_nat c.shards)) ?_
  refine Json.bind_eq_some (Json.Record.defaulted_remaining o.top
    (Json.toUInt64?_nat c.channelCapacity)) ?_
  refine Json.bind_eq_some (Json.Record.defaulted_remaining o.top rfl) ?_
  refine Json.bind_eq_some (Json.Record.defaulted_remaining o.top
    c.executionPriceMode.ofJson?_name) ?_
  refine Json.bind_eq_some (Json.Record.defaulted_remaining o.top rfl) ?_
  refine Json.bind_eq_some (Json.Record.defaulted_remaining o.top
    (Json.toUInt64?_nat c.maxBookDepth)) ?_
  exact Json.bind_eq_some (Json.Record.defaulted_remaining o.top rfl) rfl

/-- A configuration that is written in part reads back with the standard values in the place of
what was omitted, except that a field omitted from the statistics of instruments has the value
that it has by default in the statistics of the whole feed. -/
theorem read_partialJson (c : EngineConfig) (o : OmittedFields) :
    (Json.read? (c.partialJson o).compact).bind ofJson? = some (c.withDefaults o .aggregate) ∧
    (Json.read? (c.partialJson o).indented).bind ofJson? =
      some (c.withDefaults o .aggregate) := by
  rw [Json.read?_compact (c.plain_partialJson o), Json.read?_indented (c.plain_partialJson o)]
  exact ⟨c.ofJson?_partialJson o, c.ofJson?_partialJson o⟩

/-- The standard configuration with a single field left out, from the statistics of instruments. -/
def withoutInterval : OmittedFields := ⟨∅, ∅, {"reporting_interval_secs"}⟩

/-- It does not get the value of a day that it has there by default. -/
theorem read_partialJson_not_perInstrument :
    ¬ ∀ (c : EngineConfig) (o : OmittedFields),
      (Json.read? (c.partialJson o).compact).bind ofJson? =
        some (c.withDefaults o .perInstrument) := by
  intro h
  have hread := h standard withoutInterval
  rw [Json.read?_compact (standard.plain_partialJson _)] at hread
  have hsame := (ofJson?_partialJson standard withoutInterval).symm.trans hread
  have hinterval := congrArg
    (Option.map fun c : EngineConfig => c.instrumentStatistics.reportingIntervalSeconds) hsame
  revert hinterval
  decide

end EngineConfig
end TopOfBook
