import TopOfBook.Proofs.Contents
import TopOfBook.Proofs.TrailingWindow

/-! A distribution of rates counts each completed period once, at the number of events in the
window that ends with it. All its counters together count no more than the periods between two
timestamps, so none of them outgrows a 64-bit word. -/

namespace TopOfBook

open Weighted

/-! ### Reports -/

namespace RateReport

/-- The rate as a sample, with the number of periods as its weight. -/
def weighted (r : RateReport) : Nat × Nat := (r.rate, r.repeats)

theorem copies_weighted (reports : List RateReport) :
    copies (reports.map weighted) = reports.flatMap rates :=
  List.flatMap_map ..

/-- The last of all rates is the rate of the last report, as none is about no period. -/
theorem getLast?_rates {reports : List RateReport} (h : ∀ r ∈ reports, 0 < r.repeats) :
    (reports.flatMap rates).getLast? = reports.getLast?.map rate := by
  induction reports using List.reverseRecOn with
  | nil => rfl
  | append_singleton reports r _ =>
    have hr : r.repeats ≠ 0 := (h r (List.mem_append_right _ (List.mem_singleton_self r))).ne'
    simp [rates, List.getLast?_replicate, hr]

end RateReport

namespace RateWindow

variable {w : RateWindow}

theorem repeats_pos_advance (periods : Nat) : ∀ r ∈ (w.advance periods).2, 0 < r.repeats := by
  induction periods generalizing w with
  | zero => exact fun _ hr => nomatch hr
  | succ periods ih =>
    rw [advance]
    split
    · intro r hr
      rw [List.mem_singleton.1 hr]
      exact Nat.succ_pos periods
    · rintro r (_ | ⟨_, hr⟩)
      · exact Nat.one_pos
      · exact ih r hr

theorem repeats_pos_sample (t : UInt64) : ∀ r ∈ (w.sample t).2, 0 < r.repeats := by
  change ∀ r ∈ (w.moveTo (t.toNat / w.period)).2, 0 < r.repeats
  unfold moveTo
  split
  · exact fun _ hr => nomatch hr
  · split
    · exact repeats_pos_advance _
    · exact fun _ hr => nomatch hr

theorem repeats_pos_sampleAll (ts : List UInt64) : ∀ r ∈ (w.sampleAll ts).2, 0 < r.repeats := by
  induction ts using List.reverseRecOn with
  | nil => exact fun _ hr => nomatch hr
  | append_singleton ts t ih =>
    rw [sampleAll_concat]
    intro r hr
    rcases List.mem_append.1 hr with hr | hr
    · exact ih r hr
    · exact repeats_pos_sample t r hr

/-! ### Periods -/

/-- The periods that are over, from that of the first event to the one before the latest. -/
def completed (period : Nat) (ts : List UInt64) : List Nat :=
  List.range' (first period ts) (latest period ts - first period ts)

/-- The events in the window that ends with the `k`-th period. -/
def held (measurement sampling : UInt64) (ts : List UInt64) (k : Nat) : Nat :=
  windowCount (measurement / sampling).toNat (effective sampling.toNat ts) k

/-- A reset forgets all events that a window has seen since it was new. -/
theorem reset_sampleAll {measurement sampling : UInt64} (h : make measurement sampling = .ok w)
    (ts : List UInt64) : (w.sampleAll ts).1.reset = w := by
  have ht := tracks_sampleAll h ts
  rw [reset, ht.period, ht.at_latest.ring.size]
  rw [make] at h
  split at h <;> cases h
  rfl

/-- The latest period is the one of the largest timestamp. -/
theorem latest_eq_div (period : Nat) (ts : List UInt64) :
    latest period ts = (ts.map UInt64.toNat).foldl max 0 / period := by
  have hmono : Monotone fun n => n / period := fun _ _ hle => Nat.div_le_div_right hle
  induction ts using List.reverseRecOn with
  | nil => exact (Nat.zero_div period).symm
  | append_singleton ts t ih =>
    rw [latest_concat, ih, List.map_append, List.foldl_append]
    exact (hmono.map_max ..).symm

theorem latest_lt (period : Nat) (ts : List UInt64) : latest period ts < 2 ^ 64 := by
  have hmax : (ts.map UInt64.toNat).foldl max 0 < 2 ^ 64 := by
    refine List.foldlRecOn (motive := (· < 2 ^ 64)) _ _ (Nat.two_pow_pos 64) fun n hn m hm => ?_
    obtain ⟨t, -, rfl⟩ := List.mem_map.1 hm
    exact max_lt hn t.toNat_lt
  rw [latest_eq_div]
  exact (Nat.div_le_self _ _).trans_lt hmax

end RateWindow

/-! ### Counters -/

namespace Histogram

/-- No counter reaches the limit. -/
structure Below {B T : Type} (h : Histogram B T) (limit : Nat) : Prop where
  samples : h.samples < limit
  underflow : h.underflow < limit
  overflow : h.overflow < limit
  weight : ∀ bin, h.bins.weight bin < limit

theorem below_ofSamples {B T : Type} [Binning B T] [LawfulBinning B] [LT T] [DecidableLT T] [LE T]
    [Std.IsLinearOrder T] [Std.LawfulOrderLT T] (b : B) {xs : List (T × Nat)} {limit : Nat}
    (h : total xs < limit) : (ofSamples b xs).Below limit := by
  have hc := counts_ofSamples b xs
  have hpart (p : T → Bool) : totalWhere p xs < limit := (totalWhere_le_total p xs).trans_lt h
  refine ⟨?_, ?_, ?_, fun bin => ?_⟩
  · rwa [hc.samples]
  · rw [hc.underflow]
    exact hpart _
  · rw [hc.overflow]
    exact hpart _
  · rw [hc.weight]
    exact hpart _

end Histogram

namespace RateDistribution

open RateWindow

/-! ### Runs -/

/-- Takes events one after the other. -/
def sampleAll (d : RateDistribution) (ts : List Timestamp) : RateDistribution := ts.foldl sample d

/-- The histogram and the last rate follow from the reports of the window. -/
theorem sampleAll_eq (d : RateDistribution) (ts : List Timestamp) :
    d.sampleAll ts =
      let run := d.window.sampleAll (ts.map Timestamp.nanos)
      let counted := run.2.foldl record (d.rates, d.lastRate)
      ⟨counted.1, run.1, counted.2⟩ := by
  induction ts using List.reverseRecOn with
  | nil => rfl
  | append_singleton ts t ih =>
    have hstep : d.sampleAll (ts ++ [t]) = (d.sampleAll ts).sample t := by
      rw [sampleAll, List.foldl_append]
      rfl
    rw [hstep, ih, List.map_append, List.map_singleton, sampleAll_concat]
    dsimp only
    rw [List.foldl_append]
    rfl

theorem foldl_record (b : IntegerRange Nat) (reports : List RateReport) :
    reports.foldl record (.empty b, none) =
      (.ofSamples b (reports.map RateReport.weighted), reports.getLast?.map RateReport.rate) := by
  induction reports using List.reverseRecOn with
  | nil => rfl
  | append_singleton reports r ih =>
    rw [List.foldl_append, ih, List.map_append, List.getLast?_append, Histogram.ofSamples,
      Histogram.ofSamples, List.foldl_append]
    rfl

/-- What sampling, merging and resetting lead to. A refused merge leaves everything as it is. -/
inductive Reached (fresh : RateDistribution) : RateDistribution → Prop
  | start : Reached fresh fresh
  | sample {d : RateDistribution} (t : Timestamp) : Reached fresh d → Reached fresh (d.sample t)
  | merge {d sum : RateDistribution} (other : RateDistribution) : Reached fresh d →
    d.merge other = .ok sum → Reached fresh sum
  | reset {d : RateDistribution} : Reached fresh d → Reached fresh d.reset

theorem keeps_of_merge {d other sum : RateDistribution} (h : d.merge other = .ok sum) :
    sum.rates.binning = d.rates.binning ∧ sum.window = d.window := by
  by_cases hbins : d.rates.binning = other.rates.binning
  · rw [merge_eq_plus hbins] at h
    cases h
    exact ⟨rfl, rfl⟩
  · rw [merge_eq_error hbins] at h
    cases h

section Run

variable {maxRate measurement sampling : UInt64} {fresh d : RateDistribution}

/-- What a distribution keeps whatever happens to it: its bins, and a window that has seen some
events since it was new. -/
theorem Reached.keeps (hw : RateWindow.make measurement sampling = .ok fresh.window)
    (hd : fresh.Reached d) :
    d.rates.binning = fresh.rates.binning ∧ ∃ ts, d.window = (fresh.window.sampleAll ts).1 := by
  induction hd with
  | start => exact ⟨rfl, [], rfl⟩
  | @sample d t _ ih =>
    obtain ⟨hbins, ts, hwindow⟩ := ih
    refine ⟨(FeedStatistics.binning_rates_sample d t).trans hbins, ts ++ [t.nanos], ?_⟩
    rw [sampleAll_concat, ← hwindow]
    rfl
  | merge _ _ hmerge ih =>
    obtain ⟨hbins, hwindow⟩ := keeps_of_merge hmerge
    rwa [hbins, hwindow]
  | reset _ ih =>
    obtain ⟨hbins, ts, hwindow⟩ := ih
    refine ⟨hbins, [], ?_⟩
    rw [RateDistribution.reset, hwindow, reset_sampleAll hw]
    rfl

/-- After a reset everything is as it was when the distribution was new. -/
theorem Reached.reset_eq (h : make maxRate measurement sampling = .ok fresh)
    (hd : fresh.Reached d) : d.reset = fresh := by
  obtain ⟨b, -, -, hrates, hw, hlast⟩ := make_eq_ok h
  obtain ⟨hbins, ts, hwindow⟩ := hd.keeps hw
  obtain ⟨rates, window, lastRate⟩ := fresh
  cases hrates
  cases hlast
  rw [RateDistribution.reset, Histogram.reset, hbins, hwindow, reset_sampleAll hw]
  rfl

/-- Every completed period is counted once, in the bin of the number of events in its window; in
the last bin where it is at least the largest rate, and beyond that it also counts as overflow.
The last rate is that of the period completed last, and there is none before. -/
structure CountsPeriods (maxRate measurement sampling : UInt64) (ts : List UInt64)
    (d : RateDistribution) : Prop where
  samples : d.rates.samples =
    (ts.map UInt64.toNat).foldl max 0 / sampling.toNat - first sampling.toNat ts
  locate : ∀ r ≤ maxRate.toNat, Binning.locate d.rates.binning r = .bin r
  weight : ∀ r < maxRate.toNat, d.rates.bins.weight r =
    (completed sampling.toNat ts).countP (held measurement sampling ts · = r)
  top : d.rates.bins.weight maxRate.toNat =
    (completed sampling.toNat ts).countP (maxRate.toNat ≤ held measurement sampling ts ·)
  underflow : d.rates.underflow = 0
  overflow : d.rates.overflow =
    (completed sampling.toNat ts).countP (maxRate.toNat < held measurement sampling ts ·)
  lastRate : d.lastRate =
    (completed sampling.toNat ts).getLast?.map (held measurement sampling ts)

/-- The bins of rates from zero on have the numbers of the rates. -/
theorem locate_rate {b : IntegerRange Nat} (hb : b.first = 0) (r : Nat) :
    Binning.locate b r = if b.last < r then .overflow else .bin r := by
  change IntegerRange.locate b r = _
  simp [IntegerRange.locate, IntegerSample.toInt, hb]

theorem binOf_rate {b : IntegerRange Nat} (hb : b.first = 0) (r : Nat) :
    Binning.binOf b r = min r b.last := by
  have hsize : Binning.size b = b.last + 1 := by
    simp [Binning.size, IntegerRange.count, IntegerSample.toInt, hb]
  rw [Binning.binOf, locate_rate hb]
  split_ifs with hlt
  · rw [hsize, min_eq_right hlt.le]
    rfl
  · rw [min_eq_left (Nat.le_of_not_lt hlt)]

/-- The run of a new distribution, from the reports of its window. -/
theorem sampleAll_of_make (h : make maxRate measurement sampling = .ok fresh)
    (ts : List Timestamp) : ∃ (b : IntegerRange Nat) (reports : List RateReport),
      b.first = 0 ∧ b.last = maxRate.toNat ∧
      reports = (fresh.window.sampleAll (ts.map Timestamp.nanos)).2 ∧
      reports.flatMap RateReport.rates = (completed sampling.toNat (ts.map Timestamp.nanos)).map
        (held measurement sampling (ts.map Timestamp.nanos)) ∧
      (fresh.sampleAll ts).rates = .ofSamples b (reports.map RateReport.weighted) ∧
      (fresh.sampleAll ts).lastRate = reports.getLast?.map RateReport.rate := by
  obtain ⟨b, hfirst, hlast, hrates, hw, hnone⟩ := make_eq_ok h
  have hrun := fresh.sampleAll_eq ts
  dsimp only at hrun
  rw [hrates, hnone, foldl_record] at hrun
  refine ⟨b, _, hfirst, hlast, rfl, (tracks_sampleAll hw _).reports, ?_, ?_⟩ <;> rw [hrun]

/-- Every completed period is one sample, at the rate that was held in its window. -/
theorem countsPeriods_of_make (h : make maxRate measurement sampling = .ok fresh)
    (ts : List Timestamp) :
    CountsPeriods maxRate measurement sampling (ts.map Timestamp.nanos) (fresh.sampleAll ts) := by
  obtain ⟨b, reports, hfirst, hlast, hrun, hrates, hhistogram, hlastRate⟩ := sampleAll_of_make h ts
  generalize ts.map Timestamp.nanos = nanos at hrun hrates ⊢
  have hc := Histogram.counts_ofSamples b (reports.map RateReport.weighted)
  have hcopies : copies (reports.map RateReport.weighted) =
      (completed sampling.toNat nanos).map (held measurement sampling nanos) :=
    (RateReport.copies_weighted reports).trans hrates
  have hwhere (p : Nat → Bool) : totalWhere p (reports.map RateReport.weighted) =
      (completed sampling.toNat nanos).countP fun k => p (held measurement sampling nanos k) := by
    rw [← countP_copies, hcopies, List.countP_map]
    rfl
  have hbin (r : Nat) : (fresh.sampleAll ts).rates.bins.weight r =
      (completed sampling.toNat nanos).countP
        fun k => min (held measurement sampling nanos k) maxRate.toNat = r := by
    rw [hhistogram, hc.weight, hwhere]
    simp only [binOf_rate hfirst, hlast]
  refine ⟨?_, fun r hr => ?_, fun r hr => ?_, ?_, ?_, ?_, ?_⟩
  · rw [hhistogram, hc.samples, ← length_copies, hcopies, List.length_map, completed,
      List.length_range', latest_eq_div]
  · rw [hhistogram, hc.binning, locate_rate hfirst, if_neg (by omega)]
  · rw [hbin]
    exact List.countP_congr fun k _ => by simp only [decide_eq_true_eq]; omega
  · rw [hbin]
    exact List.countP_congr fun k _ => by simp only [decide_eq_true_eq]; omega
  · rw [hhistogram, hc.underflow, hwhere]
    simp only [locate_rate hfirst]
    exact List.countP_eq_zero.2 fun k _ => by split_ifs <;> simp
  · rw [hhistogram, hc.overflow, hwhere]
    simp only [locate_rate hfirst, hlast]
    exact List.countP_congr fun k _ => by split_ifs <;> simp_all
  · have hpos := repeats_pos_sampleAll (w := fresh.window) nanos
    rw [← hrun] at hpos
    rw [hlastRate, ← RateReport.getLast?_rates hpos, hrates, List.getLast?_map]

/-- After any report of a run, no counter is beyond the number of completed periods. -/
theorem below_of_make (h : make maxRate measurement sampling = .ok fresh) (ts : List Timestamp)
    {reports : List RateReport}
    (hreports : reports <+: (fresh.window.sampleAll (ts.map Timestamp.nanos)).2) :
    (reports.foldl record (fresh.rates, fresh.lastRate)).1.Below (2 ^ 64) := by
  obtain ⟨b, -, -, hempty, hw, hnone⟩ := make_eq_ok h
  obtain ⟨later, hall⟩ := hreports
  have hlatest := latest_lt sampling.toNat (ts.map Timestamp.nanos)
  have hlength := congrArg List.length (tracks_sampleAll hw (ts.map Timestamp.nanos)).reports
  rw [← hall, List.flatMap_append, List.length_append, List.length_map,
    List.length_range'] at hlength
  rw [hempty, hnone, foldl_record]
  refine Histogram.below_ofSamples b ?_
  -- what is reported so far is about no more periods than are completed in the end
  rw [← length_copies, RateReport.copies_weighted]
  omega

/-- However the timestamps are ordered, a run of a distribution that is new counts the completed
periods, and no counter outgrows a word on the way. After a reset a distribution is new, whatever
it was used for. -/
theorem sampleAll_counts_periods (h : make maxRate measurement sampling = .ok fresh) :
    (∀ ts : List Timestamp,
      CountsPeriods maxRate measurement sampling (ts.map Timestamp.nanos) (fresh.sampleAll ts) ∧
      (fresh.sampleAll ts).rates.Below (2 ^ 64) ∧
      ∀ reports, reports <+: (fresh.window.sampleAll (ts.map Timestamp.nanos)).2 →
        (reports.foldl record (fresh.rates, fresh.lastRate)).1.Below (2 ^ 64)) ∧
    ∀ d, fresh.Reached d → d.reset = fresh := by
  refine ⟨fun ts => ⟨countsPeriods_of_make h ts, ?_, fun _ => below_of_make h ts⟩, fun _ hd => ?_⟩
  · rw [sampleAll_eq]
    exact below_of_make h ts (List.prefix_refl _)
  · exact hd.reset_eq h

end Run

/-- Two periods to a window, and an event that comes late: it counts in the period after its own,
where one rate is too large. -/
theorem sampleAll_counts_periods_lateEvent : ∃ fresh, make 2 2 1 = .ok fresh ∧
    let d := fresh.sampleAll [⟨0⟩, ⟨1⟩, ⟨0⟩, ⟨3⟩, ⟨10⟩]
    d.rates.samples = 10 ∧ d.rates.bins.weight 1 = 3 ∧ d.rates.overflow = 1 ∧
      d.lastRate = some 0 := by
  refine ⟨_, rfl, ?_⟩
  obtain ⟨hc, -⟩ := (sampleAll_counts_periods (show make 2 2 1 = .ok _ from rfl)).1
    [⟨0⟩, ⟨1⟩, ⟨0⟩, ⟨3⟩, ⟨10⟩]
  refine ⟨hc.samples.trans ?_, (hc.weight 1 ?_).trans ?_, hc.overflow.trans ?_,
    hc.lastRate.trans ?_⟩ <;> decide

end RateDistribution
end TopOfBook
