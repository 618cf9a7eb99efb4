import Mathlib.Algebra.BigOperators.Group.List.Basic
import Mathlib.Data.Multiset.Fold
import Mathlib.Data.Finset.Basic
import TopOfBook.Proofs.Partitions
import TopOfBook.Proofs.Results
import TopOfBook.Proofs.Samples
import TopOfBook.Proofs.Sums

/-! What a report holds: the samples in each of its histograms as a multiset, and its counts. What
is shown of a report depends on nothing else, and a merge adds up what both reports hold. That sum
is commutative and associative, while the windows and the clocks of statistics are those of the
report that another one is added to. -/

namespace TopOfBook

/-! ### Histograms -/

namespace Histogram

variable {B T : Type} [Binning B T] [LT T] [DecidableLT T] [LE T] [Std.IsLinearOrder T]
  [Std.LawfulOrderLT T]

instance : LeftCommutative fun (x : T) (h : Histogram B T) => h.add x where
  left_comm x y h := h.add_comm y x

/-- A histogram of nothing but the samples of a multiset. -/
def holding (b : B) (xs : Multiset T) : Histogram B T := xs.foldr (fun x h => h.add x) (empty b)

@[simp] theorem holding_zero (b : B) : holding b (0 : Multiset T) = empty b := rfl

@[simp] theorem holding_cons (b : B) (x : T) (xs : Multiset T) :
    holding b (x ::ₘ xs) = (holding b xs).add x := Multiset.foldr_cons _ _ _ _

@[simp] theorem binning_holding (b : B) (xs : Multiset T) : (holding b xs).binning = b := by
  induction xs using Multiset.induction_on with
  | empty => rfl
  | cons x xs ih => rw [holding_cons, binning_add, ih]

theorem holding_plus (b : B) (xs ys : Multiset T) :
    (holding b xs).plus (holding b ys) = holding b (xs + ys) := by
  have hbins (xs ys : Multiset T) : (holding b xs).binning = (holding b ys).binning := by simp
  induction xs using Multiset.induction_on with
  | cons x xs ih =>
    rw [holding_cons, (merges_add.left (hbins xs ys) x).2, ih, Multiset.cons_add, holding_cons]
  | empty =>
    induction ys using Multiset.induction_on with
    | empty => exact empty_plus_empty b
    | cons y ys ih =>
      rw [holding_cons, (merges_add.right (hbins 0 ys) y).2, ih, zero_add, zero_add, holding_cons]

theorem plus_of_holding {b : B} {xs ys : Multiset T} {h k : Histogram B T}
    (hh : h = holding b xs) (hk : k = holding b ys) : h.plus k = holding b (xs + ys) := by
  rw [hh, hk, holding_plus]

theorem addWeighted_holding (b : B) (xs : Multiset T) (x : T) (w : Nat) :
    (holding b xs).addWeighted x w = holding b (Multiset.replicate w x + xs) := by
  induction w generalizing xs with
  | zero => rw [Multiset.replicate_zero, zero_add]; rfl
  | succ w ih =>
    rw [addWeighted_succ, ← holding_cons, ih, Multiset.replicate_succ, Multiset.add_cons,
      Multiset.cons_add]

end Histogram

/-! ### Statistics -/

/-- The samples in the five histograms of a feed. -/
@[ext] structure FeedSamples where
  latency : Multiset UInt64
  interarrival : Multiset UInt64
  perSecond : Multiset Nat
  perMillisecond : Multiset Nat
  perMicrosecond : Multiset Nat

namespace FeedSamples

instance : Zero FeedSamples := ⟨0, 0, 0, 0, 0⟩

instance : Add FeedSamples where
  add x y := ⟨x.latency + y.latency, x.interarrival + y.interarrival, x.perSecond + y.perSecond,
    x.perMillisecond + y.perMillisecond, x.perMicrosecond + y.perMicrosecond⟩

instance : AddCommMonoid FeedSamples where
  nsmul := nsmulRec
  zero_add _ := FeedSamples.ext (zero_add _) (zero_add _) (zero_add _) (zero_add _) (zero_add _)
  add_zero _ := FeedSamples.ext (add_zero _) (add_zero _) (add_zero _) (add_zero _) (add_zero _)
  add_comm _ _ := FeedSamples.ext (add_comm _ _) (add_comm _ _) (add_comm _ _) (add_comm _ _)
    (add_comm _ _)
  add_assoc _ _ _ := FeedSamples.ext (add_assoc _ _ _) (add_assoc _ _ _) (add_assoc _ _ _)
    (add_assoc _ _ _) (add_assoc _ _ _)

end FeedSamples

/-- The statistics hold these samples, in the bins of others. -/
structure FeedStatistics.Holds (like s : FeedStatistics) (x : FeedSamples) : Prop where
  latency : s.latency = .holding like.latency.binning x.latency
  interarrival : s.interarrival = .holding like.interarrival.binning x.interarrival
  perSecond : s.perSecond.rates = .holding like.perSecond.rates.binning x.perSecond
  perMillisecond :
    s.perMillisecond.rates = .holding like.perMillisecond.rates.binning x.perMillisecond
  perMicrosecond :
    s.perMicrosecond.rates = .holding like.perMicrosecond.rates.binning x.perMicrosecond

namespace FeedStatistics

variable {like s t : FeedStatistics} {x y : FeedSamples}

theorem Holds.sameBins (h : like.Holds s x) : SameBins s like where
  latency := by rw [h.latency, Histogram.binning_holding]
  interarrival := by rw [h.interarrival, Histogram.binning_holding]
  perSecond := by rw [h.perSecond, Histogram.binning_holding]
  perMillisecond := by rw [h.perMillisecond, Histogram.binning_holding]
  perMicrosecond := by rw [h.perMicrosecond, Histogram.binning_holding]

theorem Holds.plus (hs : like.Holds s x) (ht : like.Holds t y) :
    like.Holds (s.plus t) (x + y) where
  latency := Histogram.plus_of_holding hs.latency ht.latency
  interarrival := Histogram.plus_of_holding hs.interarrival ht.interarrival
  perSecond := Histogram.plus_of_holding hs.perSecond ht.perSecond
  perMillisecond := Histogram.plus_of_holding hs.perMillisecond ht.perMillisecond
  perMicrosecond := Histogram.plus_of_holding hs.perMicrosecond ht.perMicrosecond

/-- Nothing but the samples is in the histograms. -/
theorem Holds.unique (hs : like.Holds s x) (ht : like.Holds t x) :
    s.latency = t.latency ∧ s.interarrival = t.interarrival ∧
      s.perSecond.rates = t.perSecond.rates ∧ s.perMillisecond.rates = t.perMillisecond.rates ∧
      s.perMicrosecond.rates = t.perMicrosecond.rates :=
  ⟨hs.latency.trans ht.latency.symm, hs.interarrival.trans ht.interarrival.symm,
    hs.perSecond.trans ht.perSecond.symm, hs.perMillisecond.trans ht.perMillisecond.symm,
    hs.perMicrosecond.trans ht.perMicrosecond.symm⟩

theorem Holds.csvRow_eq (hs : like.Holds s x) (ht : like.Holds t x) (name : String) :
    s.csvRow name = t.csvRow name := by
  obtain ⟨hlatency, hinterarrival, hsecond, hmilli, hmicro⟩ := hs.unique ht
  simp only [csvRow, RateDistribution.summary, hlatency, hinterarrival, hsecond, hmilli, hmicro]

end FeedStatistics

/-! ### New statistics -/

theorem DurationHistogram.make_eq_ok {choice : BinningChoice} {h : DurationHistogram}
    (hh : make choice = .ok h) : ∃ b, ChosenBinning.ofChoice choice = .ok b ∧ .empty b = h :=
  exists_of_map_eq_ok hh

/-- New histograms of counts are empty, with bins from zero to the largest count. -/
theorem CountHistogram.make_eq_ok {largest : Nat} {h : CountHistogram}
    (hh : make largest = .ok h) :
    ∃ b : IntegerRange Nat, b.first = 0 ∧ b.last = largest ∧ h = .empty b := by
  obtain ⟨b, hb, rfl⟩ := exists_of_map_eq_ok hh
  obtain ⟨hfirst, hlast⟩ := IntegerRange.ends_of_make hb
  exact ⟨b, hfirst, hlast, rfl⟩

theorem DepthStatistics.eq_empty_of_make {maxDepth : UInt64} {d : DepthStatistics}
    (h : make maxDepth = .ok d) : ∃ binning, d.depths = .empty binning := by
  obtain ⟨depths, hdepths, h⟩ := exists_of_bind_eq_ok h
  cases h
  obtain ⟨b, -, -, rfl⟩ := CountHistogram.make_eq_ok hdepths
  exact ⟨b, rfl⟩

theorem RateDistribution.make_eq_ok {maxRate measurement sampling : UInt64}
    {d : RateDistribution} (h : make maxRate measurement sampling = .ok d) :
    ∃ b : IntegerRange Nat, b.first = 0 ∧ b.last = maxRate.toNat ∧ d.rates = .empty b ∧
      RateWindow.make measurement sampling = .ok d.window ∧ d.lastRate = none := by
  obtain ⟨rates, hrates, h⟩ := exists_of_bind_eq_ok h
  obtain ⟨window, hwindow, h⟩ := exists_of_bind_eq_ok h
  cases h
  obtain ⟨b, hfirst, hlast, rfl⟩ := CountHistogram.make_eq_ok hrates
  exact ⟨b, hfirst, hlast, rfl, hwindow, rfl⟩

/-- New statistics have their histograms as they are built, and have seen no event. -/
theorem FeedStatistics.make_eq_ok {c : StatisticsConfig} {s : FeedStatistics}
    (h : make c = .ok s) :
    ∃ latency interarrival perSecond perMillisecond perMicrosecond,
      DurationHistogram.make c.processingLatency = .ok latency ∧
      DurationHistogram.make c.interarrival = .ok interarrival ∧
      RateDistribution.make c.maxPerSecond nanosPerSecond nanosPerMilli = .ok perSecond ∧
      RateDistribution.make c.maxPerMillisecond nanosPerMilli nanosPerMicro = .ok perMillisecond ∧
      RateDistribution.make c.maxPerMicrosecond nanosPerMicro 1 = .ok perMicrosecond ∧
      s = ⟨latency, interarrival, perSecond, perMillisecond, perMicrosecond, none, none,
        intervalOf c.reportingIntervalSeconds⟩ := by
  obtain ⟨latency, hlatency, h⟩ := exists_of_bind_eq_ok h
  obtain ⟨interarrival, hinterarrival, h⟩ := exists_of_bind_eq_ok h
  obtain ⟨perSecond, hsecond, h⟩ := exists_of_bind_eq_ok h
  obtain ⟨perMillisecond, hmilli, h⟩ := exists_of_bind_eq_ok h
  obtain ⟨perMicrosecond, hmicro, h⟩ := exists_of_bind_eq_ok h
  cases h
  exact ⟨_, _, _, _, _, hlatency, hinterarrival, hsecond, hmilli, hmicro, rfl⟩

theorem FeedStatistics.holds_of_make {c : StatisticsConfig} {s : FeedStatistics}
    (h : make c = .ok s) : s.Holds s 0 := by
  have hempty {B T : Type} [Binning B T] [LT T] [DecidableLT T] [LE T] [Std.IsLinearOrder T]
      [Std.LawfulOrderLT T] {h : Histogram B T} {b : B} (hh : h = .empty b) :
      h = .holding h.binning 0 := by
    subst hh
    rfl
  obtain ⟨_, _, _, _, _, hlatency, hinterarrival, hsecond, hmilli, hmicro, rfl⟩ := make_eq_ok h
  obtain ⟨_, -, hlatency⟩ := DurationHistogram.make_eq_ok hlatency
  obtain ⟨_, -, hinterarrival⟩ := DurationHistogram.make_eq_ok hinterarrival
  obtain ⟨_, -, -, hsecond, -⟩ := RateDistribution.make_eq_ok hsecond
  obtain ⟨_, -, -, hmilli, -⟩ := RateDistribution.make_eq_ok hmilli
  obtain ⟨_, -, -, hmicro, -⟩ := RateDistribution.make_eq_ok hmicro
  exact ⟨hempty hlatency.symm, hempty hinterarrival.symm, hempty hsecond, hempty hmilli,
    hempty hmicro⟩

/-! ### Counters -/

namespace Counters

private theorem zipWith_add_comm (a b : Vector Nat 9) :
    a.zipWith (· + ·) b = b.zipWith (· + ·) a := by
  apply Vector.ext
  intro k hk
  simp [Nat.add_comm]

private theorem zipWith_add_assoc (a b c : Vector Nat 9) :
    (a.zipWith (· + ·) b).zipWith (· + ·) c = a.zipWith (· + ·) (b.zipWith (· + ·) c) := by
  apply Vector.ext
  intro k hk
  simp [Nat.add_assoc]

theorem merge_comm (a b : Counters) : a.merge b = b.merge a := by
  simp only [merge, zipWith_add_comm, Nat.add_comm]

theorem merge_assoc (a b c : Counters) : (a.merge b).merge c = a.merge (b.merge c) := by
  simp only [merge, zipWith_add_assoc, Nat.add_assoc]

theorem zero_merge (a : Counters) : zero.merge a = a := by
  have hkinds : (Vector.replicate 9 0).zipWith (· + ·) a.byKind = a.byKind := by
    apply Vector.ext
    intro k hk
    simp
  simp only [merge, zero, hkinds, Nat.zero_add]

end Counters

/-! ### Reports -/

private theorem rel_merge {α β : Type} {R : α → β → Prop} {f : α → α → α} {g : β → β → β}
    (h : ∀ {s t u v}, R s u → R t v → R (f s t) (g u v)) {a b : Option α} {u v : Option β}
    (hu : Option.Rel R a u) (hv : Option.Rel R b v) :
    Option.Rel R (Option.merge f a b) (Option.merge g u v) := by
  cases hu with
  | none => simpa using hv
  | some hu =>
    cases hv with
    | none => exact .some hu
    | some hv => exact .some (h hu hv)

/-- The statistics that those of each instrument begin as. Without any it does not matter. -/
def Dispatcher.prototype (d : Dispatcher) : FeedStatistics :=
  d.instrumentStatistics.elim d.statistics InstrumentStatistics.prototype

namespace Report

/-- All that a report holds. -/
@[ext] structure Contents where
  feed : FeedSamples
  byInstrument : Instrument → Option FeedSamples
  depths : Multiset Nat
  counters : Counters
  liveOrders : Nat
  books : Nat
  corrupted : Finset Instrument

namespace Contents

instance : Zero Contents := ⟨0, fun _ => none, 0, .zero, 0, 0, ∅⟩

instance : Add Contents where
  add x y :=
    { feed := x.feed + y.feed
      byInstrument := fun i => Option.merge (· + ·) (x.byInstrument i) (y.byInstrument i)
      depths := x.depths + y.depths
      counters := x.counters.merge y.counters
      liveOrders := x.liveOrders + y.liveOrders
      books := x.books + y.books
      corrupted := x.corrupted ∪ y.corrupted }

instance : AddCommMonoid Contents where
  nsmul := nsmulRec
  zero_add _ := Contents.ext (zero_add _) (funext fun _ => Option.merge_none_left) (zero_add _)
    (Counters.zero_merge _) (zero_add _) (zero_add _) (Finset.empty_union _)
  add_zero _ := Contents.ext (add_zero _) (funext fun _ => Option.merge_none_right) (add_zero _)
    ((Counters.merge_comm _ _).trans (Counters.zero_merge _)) (add_zero _) (add_zero _)
    (Finset.union_empty _)
  add_comm _ _ := Contents.ext (add_comm _ _)
    (funext fun _ => (Option.commutative_merge _).comm _ _) (add_comm _ _)
    (Counters.merge_comm _ _) (add_comm _ _) (add_comm _ _) (Finset.union_comm _ _)
  add_assoc _ _ _ := Contents.ext (add_assoc _ _ _)
    (funext fun _ => (Option.associative_merge fun u v : FeedSamples => u + v).assoc _ _ _)
    (add_assoc _ _ _) (Counters.merge_assoc _ _ _) (add_assoc _ _ _) (add_assoc _ _ _)
    (Finset.union_assoc _ _ _)

end Contents

/-- What a report holds, in the bins of a dispatcher. -/
structure Holds (d : Dispatcher) (r : Report) (x : Contents) : Prop where
  feed : d.statistics.Holds r.statistics x.feed
  byInstrument : ∀ i : Instrument,
    Option.Rel d.prototype.Holds r.byInstrument[i]? (x.byInstrument i)
  depths : r.depths = d.depths.map fun s => ⟨.holding s.depths.binning x.depths⟩
  counters : r.counters = x.counters
  liveOrders : r.liveOrders = x.liveOrders
  books : r.books = x.books
  ascends : Ascends r.corrupted
  corrupted : ∀ i, i ∈ r.corrupted ↔ i ∈ x.corrupted

variable {d : Dispatcher} {a b sum : Report} {x y : Contents}

theorem Holds.sameBins (ha : Holds d a x) (hb : Holds d b y) : SameBins a b where
  statistics := ha.feed.sameBins.trans hb.feed.sameBins.symm
  byInstrument := by
    rintro i ⟨s, t, hs, ht, hbins⟩
    have hmine := ha.byInstrument i
    have htheirs := hb.byInstrument i
    rw [hs] at hmine
    rw [ht] at htheirs
    generalize x.byInstrument i = u at hmine
    generalize y.byInstrument i = v at htheirs
    cases hmine with
    | some hu =>
      cases htheirs with
      | some hv => exact hbins (hu.sameBins.trans hv.sameBins.symm)
  depths := by
    intro s t hs ht
    rw [ha.depths, Option.map_eq_some_iff] at hs
    rw [hb.depths, Option.map_eq_some_iff] at ht
    obtain ⟨fresh, hfresh, rfl⟩ := hs
    obtain ⟨fresh', hfresh', rfl⟩ := ht
    cases hfresh.symm.trans hfresh'
    simp

/-- The sum of two reports holds what both hold. -/
theorem IsSum.holds (h : IsSum a b sum) (ha : Holds d a x) (hb : Holds d b y) :
    Holds d sum (x + y) where
  feed := by
    rw [h.statistics]
    exact ha.feed.plus hb.feed
  byInstrument i := by
    rw [h.byInstrument]
    exact rel_merge (fun hs ht => hs.plus ht) (ha.byInstrument i) (hb.byInstrument i)
  depths := by
    rw [h.depths, ha.depths, hb.depths]
    cases d.depths with
    | none => rfl
    | some fresh =>
      exact congrArg (fun h => some (DepthStatistics.mk h)) (Histogram.holding_plus _ _ _)
  counters := by
    rw [h.counters, ha.counters, hb.counters]
    rfl
  liveOrders := by
    rw [h.liveOrders, ha.liveOrders, hb.liveOrders]
    rfl
  books := by
    rw [h.books, ha.books, hb.books]
    rfl
  ascends := by
    rw [h.corrupted]
    exact ascends_mergeCorrupted _ _
  corrupted i := by
    rw [h.corrupted, mem_mergeCorrupted, ha.corrupted, hb.corrupted]
    exact Finset.mem_union.symm

/-- Reports that hold the same are shown alike. -/
theorem Holds.shown (ha : Holds d a x) (hb : Holds d b x) :
    a.metrics = b.metrics ∧ a.csv = b.csv ∧ a.depthCsv? = b.depthCsv? := by
  have hdepths : a.depths = b.depths := ha.depths.trans hb.depths.symm
  have hcorrupted : a.corrupted = b.corrupted :=
    ha.ascends.ext hb.ascends fun i => (ha.corrupted i).trans (hb.corrupted i).symm
  refine ⟨?_, ?_, ?_⟩
  · obtain ⟨hlatency, hinterarrival, hsecond, hmilli, hmicro⟩ := ha.feed.unique hb.feed
    simp only [metrics, Metrics.of, RateDistribution.summary, hlatency, hinterarrival, hsecond,
      hmilli, hmicro, hdepths, hcorrupted, ha.counters, hb.counters, ha.liveOrders, hb.liveOrders,
      ha.books, hb.books]
  · have hrows : (a.byInstrument.map fun i s => s.csvRow i.render) =
        b.byInstrument.map fun i s => s.csvRow i.render := by
      apply Std.ExtTreeMap.ext_getElem?
      intro i
      rw [Std.ExtTreeMap.getElem?_map, Std.ExtTreeMap.getElem?_map]
      have hmine := ha.byInstrument i
      have htheirs := hb.byInstrument i
      revert hmine htheirs
      generalize a.byInstrument[i]? = s, b.byInstrument[i]? = t, x.byInstrument i = u
      rintro (hs | _) (ht | _)
      · exact congrArg some (hs.csvRow_eq ht _)
      · rfl
    have hlist := congrArg (fun m => (Std.ExtTreeMap.toList m).map Prod.snd) hrows
    simp only [Std.ExtTreeMap.toList_map, List.map_map] at hlist
    simp only [csv, ha.feed.csvRow_eq hb.feed]
    exact congrArg (fun rows => String.join
      ((FeedStatistics.csvHeader :: (rows ++ _)).map (· ++ "\n"))) hlist
  · rw [depthCsv?, depthCsv?, hdepths]

end Report
end TopOfBook
