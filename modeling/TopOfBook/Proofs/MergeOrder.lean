import Mathlib.Data.Finset.Dedup
import Mathlib.Data.List.Permutation
import TopOfBook.Proofs.Contents
import TopOfBook.Proofs.Parts

/-! Reports of dispatchers that were built alike can be merged in any order and in any grouping.
What each of them holds adds up, so nothing that is shown of the sum depends on the way it was put
together: the windows and the clocks do, but they are not shown. -/

namespace TopOfBook

/-! ### What is sampled -/

theorem RateDistribution.holds_sample {b : IntegerRange Nat} {d : RateDistribution}
    {xs : Multiset Nat} (h : d.rates = .holding b xs) (t : Timestamp) :
    ∃ ys, (d.sample t).rates = .holding b ys := by
  refine List.foldlRecOn
    (motive := fun p : CountHistogram × Option Nat => ∃ ys, p.1 = .holding b ys) _ _ ⟨xs, h⟩ ?_
  rintro p ⟨ys, hp⟩ r -
  exact ⟨_, (congrArg (·.addWeighted r.rate r.repeats) hp).trans
    (Histogram.addWeighted_holding b ys _ _)⟩

namespace FeedStatistics

variable {like s : FeedStatistics} {x : FeedSamples}

theorem Holds.count (h : like.Holds s x) (t : Timestamp) (nanos : UInt64) :
    ∃ y, like.Holds (s.count t nanos) y := by
  obtain ⟨perSecond, hsecond⟩ := RateDistribution.holds_sample h.perSecond t
  obtain ⟨perMillisecond, hmilli⟩ := RateDistribution.holds_sample h.perMillisecond t
  obtain ⟨perMicrosecond, hmicro⟩ := RateDistribution.holds_sample h.perMicrosecond t
  obtain ⟨interarrival, hinterarrival⟩ : ∃ ys,
      (s.count t nanos).interarrival = .holding like.interarrival.binning ys := by
    cases hlast : s.lastFeed with
    | none => exact ⟨_, by simpa only [FeedStatistics.count, hlast] using h.interarrival⟩
    | some last =>
      refine ⟨t.since last ::ₘ x.interarrival, ?_⟩
      simp only [FeedStatistics.count, hlast, h.interarrival, Histogram.holding_cons]
  have hlatency : (s.count t nanos).latency =
      .holding like.latency.binning (nanos ::ₘ x.latency) := by
    simp only [FeedStatistics.count, h.latency, Histogram.holding_cons]
  exact ⟨⟨_, _, _, _, _⟩, hlatency, hinterarrival, hsecond, hmilli, hmicro⟩

/-- What is sampled is held, in the same bins. -/
theorem Holds.sample (h : like.Holds s x) (t : Timestamp) (nanos : UInt64) :
    ∃ y, like.Holds (s.sample t nanos).1 y := by
  obtain ⟨y, hy⟩ := h.count t nanos
  refine ⟨y, ?_⟩
  unfold FeedStatistics.sample report
  dsimp only
  split <;> exact ⟨hy.latency, hy.interarrival, hy.perSecond, hy.perMillisecond, hy.perMicrosecond⟩

end FeedStatistics

namespace InstrumentStatistics

/-- The statistics of every instrument hold something, in the bins of the prototype. -/
def AllHold (s : InstrumentStatistics) : Prop :=
  ∀ (i : Instrument) mine, s.byInstrument[i]? = some mine → ∃ x, s.prototype.Holds mine x

variable {s : InstrumentStatistics}

theorem AllHold.sample (h : s.AllHold) (hnew : s.prototype.Holds s.prototype 0) (i : Instrument)
    (t : Timestamp) (nanos : UInt64) : (s.sample i t nanos).1.AllHold := by
  obtain ⟨x, hx⟩ : ∃ x, s.prototype.Holds (s.byInstrument.getD i s.prototype) x := by
    rw [Std.ExtTreeMap.getD_eq_getD_getElem?]
    cases hi : s.byInstrument[i]? with
    | none => exact ⟨0, hnew⟩
    | some mine => exact h i mine hi
  obtain ⟨y, hy⟩ := hx.sample t nanos
  intro j mine hj
  rw [InstrumentStatistics.sample, Std.ExtTreeMap.getElem?_insert] at hj
  split at hj
  · cases hj
    exact ⟨y, hy⟩
  · exact h j mine hj

theorem AllHold.enter (h : s.AllHold) (hnew : s.prototype.Holds s.prototype 0) (a : Entry) :
    (s.enter a).AllHold ∧ (s.enter a).prototype = s.prototype := by
  unfold InstrumentStatistics.enter
  split
  · exact ⟨h.sample hnew _ _ _, rfl⟩
  · exact ⟨h, rfl⟩

/-- As the entries of a run are sampled, the statistics of every instrument stay in the bins of
the prototype. -/
theorem allHold_foldl_enter (hempty : s.byInstrument = ∅)
    (hnew : s.prototype.Holds s.prototype 0) (entries : List Entry) :
    (entries.foldl InstrumentStatistics.enter s).AllHold ∧
      (entries.foldl InstrumentStatistics.enter s).prototype = s.prototype := by
  refine List.foldlRecOn (motive := fun s' : InstrumentStatistics =>
    s'.AllHold ∧ s'.prototype = s.prototype) entries _ ⟨?_, rfl⟩ ?_
  · intro i mine hi
    simp [hempty] at hi
  · rintro s' ⟨hall, hprototype⟩ a -
    obtain ⟨hall', hprototype'⟩ := hall.enter (hprototype ▸ hnew) a
    exact ⟨hall', hprototype'.trans hprototype⟩

end InstrumentStatistics

theorem DepthStatistics.holds_foldl_enter {d : DepthStatistics} {b : IntegerRange Nat}
    (hempty : d.depths = .empty b) (entries : List Entry) :
    ∃ xs, entries.foldl enter d = ⟨.holding b xs⟩ := by
  refine List.foldlRecOn (motive := fun d' : DepthStatistics => ∃ xs, d' = ⟨.holding b xs⟩)
    entries _ ⟨0, congrArg mk hempty⟩ ?_
  rintro d' ⟨xs, rfl⟩ a -
  unfold enter
  split
  · split
    · exact ⟨_, congrArg mk (Histogram.holding_cons b _ xs).symm⟩
    · exact ⟨xs, rfl⟩
  · exact ⟨xs, rfl⟩

/-! ### Runs -/

namespace Dispatcher

variable {c : EngineConfig} {d : Dispatcher}

/-- The statistics of a new dispatcher hold nothing. -/
theorem holds_of_make (hd : make c = .ok d) :
    d.statistics.Holds d.statistics 0 ∧ d.prototype.Holds d.prototype 0 := by
  have hfeed : d.statistics.Holds d.statistics 0 := by
    obtain ⟨_, statistics, _, -, hstatistics, -, rfl⟩ := make_eq_ok hd
    exact FeedStatistics.holds_of_make hstatistics
  refine ⟨hfeed, ?_⟩
  unfold prototype
  cases hs : d.instrumentStatistics with
  | none => exact hfeed
  | some s => exact FeedStatistics.holds_of_make (instrumentStatistics_of_make hd hs).1

theorem run_feed_holds (hnew : d.statistics.Holds d.statistics 0) (calls : List Call) :
    ∃ x, d.statistics.Holds (d.run calls).1.statistics x := by
  -- the bins stay those of the new dispatcher while the run goes on from any other one
  have hcalls : ∀ d' : Dispatcher, (∃ x, d.statistics.Holds d'.statistics x) →
      ∃ x, d.statistics.Holds (d'.run calls).1.statistics x := by
    induction calls with
    | nil => exact fun _ h => h
    | cons call rest ih =>
      rintro d' ⟨x, hx⟩
      apply ih
      cases call with
      | process e latency => exact hx.sample _ _
      | reset i => exact ⟨x, hx⟩
  exact hcalls d ⟨0, hnew⟩

theorem run_depths_hold (hnew : ∀ s, d.depths = some s → ∃ b, s.depths = .empty b)
    (calls : List Call) : ∃ xs, (d.run calls).1.depths =
      d.depths.map fun s => ⟨.holding s.depths.binning xs⟩ := by
  rw [run_depths]
  cases hd : d.depths with
  | none => exact ⟨0, rfl⟩
  | some s =>
    obtain ⟨b, hb⟩ := hnew s hd
    obtain ⟨xs, hxs⟩ := DepthStatistics.holds_foldl_enter hb (d.run calls).2
    exact ⟨xs, by simp only [Option.map_some, hxs, hb, Histogram.empty]⟩

theorem run_byInstrument_holds (hnew : d.prototype.Holds d.prototype 0)
    (hempty : ∀ s, d.instrumentStatistics = some s → s.byInstrument = ∅) (calls : List Call) :
    ∃ x : Instrument → Option FeedSamples, ∀ i : Instrument,
      Option.Rel d.prototype.Holds (d.run calls).1.report.byInstrument[i]? (x i) := by
  simp only [report, run_instrumentStatistics]
  cases hs : d.instrumentStatistics with
  | none => exact ⟨fun _ => none, fun i => by simp⟩
  | some s =>
    have hprototype : d.prototype = s.prototype := by rw [prototype, hs, Option.elim_some]
    rw [hprototype] at hnew ⊢
    obtain ⟨hall, hsame⟩ := InstrumentStatistics.allHold_foldl_enter (hempty s hs) hnew
      (d.run calls).2
    rw [InstrumentStatistics.AllHold, hsame] at hall
    simp only [Option.map_some, Option.elim_some]
    generalize (d.run calls).2.foldl InstrumentStatistics.enter s = s' at hall
    have hheld : ∀ i : Instrument, ∃ x, Option.Rel s.prototype.Holds s'.byInstrument[i]? x := by
      intro i
      cases hi : s'.byInstrument[i]? with
      | none => exact ⟨none, .none⟩
      | some mine =>
        obtain ⟨x, hx⟩ := hall i mine hi
        exact ⟨some x, .some hx⟩
    choose x hx using hheld
    exact ⟨x, hx⟩

/-- The report of a run of a new dispatcher holds something in the bins of that dispatcher. -/
theorem run_holds (hd : make c = .ok d) (calls : List Call) :
    ∃ x, Report.Holds d (d.run calls).1.report x := by
  obtain ⟨hfeed, hprototype⟩ := holds_of_make hd
  have hfresh := fresh_of_make hd
  obtain ⟨feed, hfeed⟩ := run_feed_holds hfeed calls
  obtain ⟨depths, hdepths⟩ := run_depths_hold hfresh.depths calls
  obtain ⟨byInstrument, hbyInstrument⟩ :=
    run_byInstrument_holds hprototype hfresh.byInstrument calls
  exact ⟨⟨feed, byInstrument, depths, _, _, _, (d.run calls).1.report.corrupted.toFinset⟩,
    { feed := hfeed
      byInstrument := hbyInstrument
      depths := hdepths
      counters := rfl
      liveOrders := rfl
      books := rfl
      ascends := Store.ascends_corrupted _
      corrupted := fun i => List.mem_toFinset.symm }⟩

end Dispatcher

/-! ### Merges -/

namespace Report

/-- The report counts what dispatchers know that were given some calls each. -/
structure Counts (d : Dispatcher) (runs : List (List Call)) (r : Report) : Prop where
  events : r.counters.events = (runs.map fun calls => (d.run calls).1.counters.events).sum
  samples : r.statistics.events = (runs.map fun calls => (d.run calls).1.statistics.events).sum
  liveOrders : r.liveOrders = (runs.map fun calls => (d.run calls).1.store.orders.size).sum
  books : r.books = (runs.map fun calls => (d.run calls).1.store.books.size).sum
  corrupted : ∀ i, i ∈ r.corrupted ↔ ∃ calls ∈ runs, i ∈ (d.run calls).1.store.corrupted

theorem counts_run (d : Dispatcher) (calls : List Call) :
    (d.run calls).1.report.Counts d [calls] := by
  constructor <;> simp [Dispatcher.report]

theorem IsSum.counts {d : Dispatcher} {runs runs' : List (List Call)} {a b sum : Report}
    (h : a.IsSum b sum) (ha : a.Counts d runs) (hb : b.Counts d runs') :
    sum.Counts d (runs ++ runs') where
  events := by
    rw [List.map_append, List.sum_append, ← ha.events, ← hb.events, h.counters]
    rfl
  samples := by
    rw [List.map_append, List.sum_append, ← ha.samples, ← hb.samples, h.statistics]
    rfl
  liveOrders := by
    rw [List.map_append, List.sum_append, ← ha.liveOrders, ← hb.liveOrders, h.liveOrders]
  books := by rw [List.map_append, List.sum_append, ← ha.books, ← hb.books, h.books]
  corrupted i := by
    rw [h.corrupted, mem_mergeCorrupted, ha.corrupted, hb.corrupted]
    simp only [List.mem_append, or_and_right, exists_or]

end Report

/-- A way to put reports together. Each of them is of a dispatcher that was given some calls. -/
inductive MergeTree
  | report (calls : List Call)
  | merge (left right : MergeTree)

namespace MergeTree

/-- The calls of each dispatcher, in the order of their reports. -/
def runs : MergeTree → List (List Call)
  | report calls => [calls]
  | merge left right => left.runs ++ right.runs

/-- The reports put together, unless a merge fails. -/
def merged (d : Dispatcher) : MergeTree → Except HistogramFault Report
  | report calls => .ok (d.run calls).1.report
  | merge left right => do
    let a ← left.merged d
    let b ← right.merged d
    match a.merge b with
    | (sum, .ok ()) => .ok sum
    | (_, .error fault) => .error fault

/-- Every way to put reports together succeeds, and gives what they hold and count in all. -/
theorem merged_holds {d : Dispatcher} {held : List Call → Report.Contents}
    (h : ∀ calls, Report.Holds d (d.run calls).1.report (held calls)) (t : MergeTree) :
    ∃ r, t.merged d = .ok r ∧ Report.Holds d r (t.runs.map held).sum ∧ r.Counts d t.runs := by
  induction t with
  | report calls =>
    refine ⟨_, rfl, ?_, Report.counts_run d calls⟩
    rw [runs, List.map_singleton, List.sum_singleton]
    exact h calls
  | merge left right hleft hright =>
    obtain ⟨a, ha, hholds, hcounts⟩ := hleft
    obtain ⟨b, hb, hholds', hcounts'⟩ := hright
    rcases a.merge_cases b with ⟨sum, hmerge, -, hsum⟩ | ⟨_, -, hbins, -⟩
    · refine ⟨sum, ?_, ?_, hsum.counts hcounts hcounts'⟩
      · simp only [merged, ha, hb, bind, Except.bind, hmerge]
      · rw [runs, List.map_append, List.sum_append]
        exact hsum.holds hholds hholds'
    · -- both sides have the bins of the dispatcher, so there is nothing to stop at
      exact absurd (hholds.sameBins hholds') hbins

end MergeTree

/-- Reports of dispatchers with one configuration can be merged in any order and in any grouping.
No merge fails, and the result counts what all of them know. What is shown of it is the same in
every way: the figures, with the corrupted instruments ascending and each of them once, the rows
of the statistics and the row of the depths. -/
theorem merge_any_order {c : EngineConfig} {d : Dispatcher} (hd : Dispatcher.make c = .ok d)
    (t : MergeTree) :
    ∃ r, t.merged d = .ok r ∧ r.Counts d t.runs ∧ Report.Ascends r.metrics.corrupted ∧
      ∀ t' : MergeTree, t'.runs.Perm t.runs → ∃ r', t'.merged d = .ok r' ∧
        r'.metrics = r.metrics ∧ r'.csv = r.csv ∧ r'.depthCsv? = r.depthCsv? := by
  choose held hheld using Dispatcher.run_holds hd
  obtain ⟨r, hr, hholds, hcounts⟩ := t.merged_holds hheld
  refine ⟨r, hr, hcounts, hholds.ascends, fun t' hperm => ?_⟩
  obtain ⟨r', hr', hholds', -⟩ := t'.merged_holds hheld
  rw [(hperm.map held).sum_eq] at hholds'
  exact ⟨r', hr', hholds'.shown hholds⟩

/-- Statistics of every kind are collected. -/
def collectsAll : EngineConfig :=
  { EngineConfig.standard with enableInstrumentStatistics := true, enableDepthStatistics := true }

def bidThenAsk : List Call :=
  [.process ⟨default, .addOrder ⟨1, ⟨1⟩, .buy, ⟨10⟩, ⟨5⟩⟩⟩ 90,
    .process ⟨default, .addOrder ⟨2, ⟨1⟩, .sell, ⟨12⟩, ⟨4⟩⟩⟩ 70]

/-- The second order is refused, and its instrument is corrupted. -/
def sameOrderTwice : List Call :=
  [.process ⟨default, .addOrder ⟨1, ⟨2⟩, .buy, ⟨10⟩, ⟨5⟩⟩⟩ 90,
    .process ⟨default, .addOrder ⟨1, ⟨2⟩, .buy, ⟨10⟩, ⟨5⟩⟩⟩ 80]

def bidThenReset : List Call :=
  [.process ⟨default, .addOrder ⟨3, ⟨1⟩, .buy, ⟨11⟩, ⟨5⟩⟩⟩ 60, .reset ⟨1⟩]

theorem merge_any_order_threeRuns :
    ∃ d r r', Dispatcher.make collectsAll = .ok d ∧
      (MergeTree.merge (.merge (.report bidThenAsk) (.report sameOrderTwice))
        (.report bidThenReset)).merged d = .ok r ∧
      (MergeTree.merge (.report bidThenReset)
        (.merge (.report sameOrderTwice) (.report bidThenAsk))).merged d = .ok r' ∧
      r.liveOrders = 3 ∧ r'.metrics = r.metrics ∧ r'.csv = r.csv ∧
      r'.depthCsv? = r.depthCsv? := by
  obtain ⟨d, hd⟩ : ∃ d, Dispatcher.make collectsAll = .ok d := ⟨_, rfl⟩
  have hstore (calls : List Call) :
      (d.run calls).1.store = (Store.empty.run ⟨.eventPrice, false⟩ calls).1 :=
    (Dispatcher.run_of_make hd calls).1
  obtain ⟨r, hr, hcounts, -, hany⟩ := merge_any_order hd
    (.merge (.merge (.report bidThenAsk) (.report sameOrderTwice)) (.report bidThenReset))
  obtain ⟨r', hr', hshown⟩ := hany
    (.merge (.report bidThenReset) (.merge (.report sameOrderTwice) (.report bidThenAsk)))
    (List.reverse_perm [bidThenAsk, sameOrderTwice, bidThenReset])
  have hlive : r.liveOrders = 3 := by
    rw [hcounts.liveOrders]
    simp only [hstore]
    cbv
  exact ⟨d, r, r', hd, hr, hr', hlive, hshown⟩

end TopOfBook
