import TopOfBook.Proofs.Merging
import TopOfBook.Proofs.Runs

/-! What a dispatcher counts is a record of the entries of its run: each entry is entered by
itself, so a run over some of the calls is recorded by the entries of those calls. -/

namespace TopOfBook

namespace Counters

/-- Counts an event and what it led to. -/
def enter (c : Counters) (a : Entry) : Counters :=
  match a.call, a.answer with
  | .process e _, .outcome o => (c.recordEvent e.kind).recordOutcome o
  | _, _ => c

theorem merges_enter : Merges (fun _ _ : Counters => True) enter merge where
  left {a b} _ x := by
    refine ⟨trivial, ?_⟩
    unfold enter
    split
    · rw [recordOutcome_merge, recordEvent_merge]
    · rfl
  right {a b} _ x := by
    refine ⟨trivial, ?_⟩
    unfold enter
    split
    · rw [merge_recordOutcome, merge_recordEvent]
    · rfl

end Counters

namespace DurationHistogram

/-- Counts the latency of an event. -/
def enter (h : DurationHistogram) (a : Entry) : DurationHistogram :=
  match a.call with
  | .process _ latency => h.add latency
  | .reset _ => h

theorem merges_enter :
    Merges (fun a b : DurationHistogram => a.binning = b.binning) enter Histogram.plus where
  left {a b} hab x := by
    unfold enter
    split
    · exact Histogram.merges_add.left hab _
    · exact ⟨hab, rfl⟩
  right {a b} hab x := by
    unfold enter
    split
    · exact Histogram.merges_add.right hab _
    · exact ⟨hab, rfl⟩

end DurationHistogram

namespace DepthStatistics

/-- Counts the depth of a book that an event may have changed. -/
def enter (d : DepthStatistics) (a : Entry) : DepthStatistics :=
  match a.call, a.answer, a.book with
  | .process e _, .outcome (.ok _), some b => if e.isMutation then d.sample b.depth else d
  | _, _, _ => d

def plus (a b : DepthStatistics) : DepthStatistics := ⟨a.depths.plus b.depths⟩

theorem merge_eq_plus {a b : DepthStatistics} (h : a.depths.binning = b.depths.binning) :
    a.merge b = .ok (a.plus b) := by
  rw [merge, Histogram.merge_eq_plus h]
  rfl

theorem merges_enter :
    Merges (fun a b : DepthStatistics => a.depths.binning = b.depths.binning) enter plus where
  left {a b} hab x := by
    unfold enter
    split
    · split
      · obtain ⟨hbins, hplus⟩ := Histogram.merges_add.left hab (Book.depth ‹_›)
        exact ⟨hbins, congrArg mk hplus⟩
      · exact ⟨hab, rfl⟩
    · exact ⟨hab, rfl⟩
  right {a b} hab x := by
    unfold enter
    split
    · split
      · obtain ⟨hbins, hplus⟩ := Histogram.merges_add.right hab (Book.depth ‹_›)
        exact ⟨hbins, congrArg mk hplus⟩
      · exact ⟨hab, rfl⟩
    · exact ⟨hab, rfl⟩

end DepthStatistics

namespace InstrumentStatistics

/-- Samples an event for its instrument. -/
def enter (s : InstrumentStatistics) (a : Entry) : InstrumentStatistics :=
  match a.call, a.call.instrument? with
  | .process e latency, some i => (s.sample i e.header.fed latency).1
  | _, _ => s

/-- Only the statistics of some instruments. -/
def restrict (s : InstrumentStatistics) (keep : Instrument → Bool) : InstrumentStatistics :=
  ⟨s.prototype, s.byInstrument.filter fun i _ => keep i⟩

theorem sample_restrict_of_keep {keep : Instrument → Bool} {i : Instrument} (hk : keep i = true)
    (s : InstrumentStatistics) (t : Timestamp) (nanos : UInt64) :
    ((s.restrict keep).sample i t nanos).1 = (s.sample i t nanos).1.restrict keep := by
  have hget : (s.byInstrument.filter fun i _ => keep i).getD i s.prototype =
      s.byInstrument.getD i s.prototype := by
    rw [Std.ExtTreeMap.getD_eq_getD_getElem?, Std.ExtTreeMap.getD_eq_getD_getElem?,
      Std.ExtTreeMap.getElem?_filter']
    cases s.byInstrument[i]? <;> simp [hk, Option.filter]
  simp only [sample, restrict, hget]
  rw [OrderedMap.filter_insert_of_keep _ _ hk]

theorem sample_restrict_of_drop {keep : Instrument → Bool} {i : Instrument}
    (hk : keep i = false) (s : InstrumentStatistics) (t : Timestamp) (nanos : UInt64) :
    (s.sample i t nanos).1.restrict keep = s.restrict keep := by
  simp only [sample, restrict]
  rw [OrderedMap.filter_insert_of_drop _ _ hk fun _ _ => hk]

/-- The entries for some instruments record the statistics of those instruments. -/
theorem foldl_enter_restrict {keep : Instrument → Bool} {kept : Entry → Bool} {l : List Entry}
    (hkept : ∀ a i, a.call.instrument? = some i → kept a = keep i) (s : InstrumentStatistics) :
    (l.filter kept).foldl enter (s.restrict keep) = (l.foldl enter s).restrict keep := by
  induction l generalizing s with
  | nil => rfl
  | cons a l ih =>
    rw [List.foldl_cons, ← ih]
    rcases a with ⟨⟨e, latency⟩ | j, answer, book⟩
    · cases hi : e.instrument? with
      | none =>
        have hsame (s : InstrumentStatistics) : s.enter ⟨.process e latency, answer, book⟩ = s := by
          simp [enter, Call.instrument?, hi]
        rw [hsame, List.filter_cons]
        split
        · rw [List.foldl_cons, hsame]
        · rfl
      | some i =>
        have hsample (s : InstrumentStatistics) : s.enter ⟨.process e latency, answer, book⟩ =
            (s.sample i e.header.fed latency).1 := by
          simp [enter, Call.instrument?, hi]
        rw [hsample, List.filter_cons, hkept ⟨.process e latency, answer, book⟩ i hi]
        cases hk : keep i with
        | true =>
          rw [if_pos rfl, List.foldl_cons, hsample, sample_restrict_of_keep hk]
        | false => rw [if_neg Bool.false_ne_true, sample_restrict_of_drop hk]
    · have hsame (s : InstrumentStatistics) : s.enter ⟨.reset j, answer, book⟩ = s := rfl
      rw [hsame, List.filter_cons]
      split
      · rw [List.foldl_cons, hsame]
      · rfl

end InstrumentStatistics

/-! ### Bins -/

namespace RateDistribution

/-- The rates of two streams, and the window of the first. -/
def plus (a b : RateDistribution) : RateDistribution := { a with rates := a.rates.plus b.rates }

theorem merge_eq_plus {a b : RateDistribution} (h : a.rates.binning = b.rates.binning) :
    a.merge b = .ok (a.plus b) := by
  rw [merge, Histogram.merge_eq_plus h]
  rfl

end RateDistribution

namespace FeedStatistics

/-- The histograms have the same bins. -/
structure SameBins (a b : FeedStatistics) : Prop where
  latency : a.latency.binning = b.latency.binning
  interarrival : a.interarrival.binning = b.interarrival.binning
  perSecond : a.perSecond.rates.binning = b.perSecond.rates.binning
  perMillisecond : a.perMillisecond.rates.binning = b.perMillisecond.rates.binning
  perMicrosecond : a.perMicrosecond.rates.binning = b.perMicrosecond.rates.binning

variable {a b c : FeedStatistics}

theorem SameBins.refl (a : FeedStatistics) : SameBins a a := ⟨rfl, rfl, rfl, rfl, rfl⟩

theorem SameBins.symm (h : SameBins a b) : SameBins b a :=
  ⟨h.latency.symm, h.interarrival.symm, h.perSecond.symm, h.perMillisecond.symm,
    h.perMicrosecond.symm⟩

theorem SameBins.trans (h : SameBins a b) (h' : SameBins b c) : SameBins a c :=
  ⟨h.latency.trans h'.latency, h.interarrival.trans h'.interarrival,
    h.perSecond.trans h'.perSecond, h.perMillisecond.trans h'.perMillisecond,
    h.perMicrosecond.trans h'.perMicrosecond⟩

theorem binning_record (reports : List RateReport) (h : CountHistogram × Option Nat) :
    (reports.foldl RateDistribution.record h).1.binning = h.1.binning := by
  induction reports generalizing h with
  | nil => rfl
  | cons r reports ih =>
    rw [List.foldl_cons, ih, RateDistribution.record]
    exact Histogram.binning_addWeighted _ _ _

theorem binning_rates_sample (d : RateDistribution) (t : Timestamp) :
    (d.sample t).rates.binning = d.rates.binning :=
  binning_record _ _

/-- Sampling leaves the bins as they are. -/
theorem sameBins_sample (s : FeedStatistics) (t : Timestamp) (nanos : UInt64) :
    SameBins (s.sample t nanos).1 s := by
  have hcount : SameBins (s.count t nanos) s := by
    refine ⟨Histogram.binning_add _ _, ?_, binning_rates_sample _ _, binning_rates_sample _ _,
      binning_rates_sample _ _⟩
    simp only [count]
    split
    · rfl
    · exact Histogram.binning_add _ _
  refine SameBins.trans ?_ hcount
  unfold sample report
  dsimp only
  split <;> exact ⟨rfl, rfl, rfl, rfl, rfl⟩

theorem latency_sample (s : FeedStatistics) (t : Timestamp) (nanos : UInt64) :
    (s.sample t nanos).1.latency = s.latency.add nanos := by
  unfold sample report
  dsimp only
  split <;> rfl

/-- The samples of two streams. The windows and the progress lines are those of the first. -/
def plus (a b : FeedStatistics) : FeedStatistics :=
  { a with
    latency := a.latency.plus b.latency
    interarrival := a.interarrival.plus b.interarrival
    perSecond := a.perSecond.plus b.perSecond
    perMillisecond := a.perMillisecond.plus b.perMillisecond
    perMicrosecond := a.perMicrosecond.plus b.perMicrosecond
    lastFeed :=
      match a.lastFeed, b.lastFeed with
      | some x, some y => some (x.latest y)
      | x, y => x <|> y }

theorem sameBins_plus (a b : FeedStatistics) : SameBins (a.plus b) a := ⟨rfl, rfl, rfl, rfl, rfl⟩

theorem merge_eq_plus (h : SameBins a b) : a.merge b = .ok (a.plus b) := by
  rw [merge, Histogram.merge_eq_plus h.latency, Histogram.merge_eq_plus h.interarrival,
    RateDistribution.merge_eq_plus h.perSecond, RateDistribution.merge_eq_plus h.perMillisecond,
    RateDistribution.merge_eq_plus h.perMicrosecond]
  rfl

end FeedStatistics

/-! ### Dispatchers -/

namespace Dispatcher

/-- What each call changes by its entry alone, a run changes by its entries. -/
theorem run_foldl {β : Type} {f : Dispatcher → β} {g : β → Entry → β}
    (h : ∀ d c, f (d.call c).1 = g (f d) (d.entry c)) (d : Dispatcher) (calls : List Call) :
    f (d.run calls).1 = (d.run calls).2.foldl g (f d) := by
  induction calls generalizing d with
  | nil => rfl
  | cons c rest ih => rw [run, List.foldl_cons, ← h, ← ih]

/-- The same for an optional part. -/
theorem run_map_foldl {β : Type} {f : Dispatcher → Option β} {g : β → Entry → β}
    (h : ∀ d c, f (d.call c).1 = (f d).map (g · (d.entry c))) (d : Dispatcher)
    (calls : List Call) : f (d.run calls).1 = (f d).map ((d.run calls).2.foldl g) := by
  induction calls generalizing d with
  | nil => exact Option.map_id_apply'.symm
  | cons c rest ih =>
    rw [run, ih, h, Option.map_map]
    rfl

theorem run_counters (d : Dispatcher) (calls : List Call) :
    (d.run calls).1.counters = (d.run calls).2.foldl Counters.enter d.counters := by
  refine run_foldl (fun d c => ?_) d calls
  cases c <;> rfl

theorem run_latency (d : Dispatcher) (calls : List Call) :
    (d.run calls).1.statistics.latency =
      (d.run calls).2.foldl DurationHistogram.enter d.statistics.latency := by
  refine run_foldl (f := fun d => d.statistics.latency) (fun d c => ?_) d calls
  cases c with
  | process e latency => exact FeedStatistics.latency_sample _ _ _
  | reset i => rfl

theorem run_depths (d : Dispatcher) (calls : List Call) :
    (d.run calls).1.depths =
      d.depths.map ((d.run calls).2.foldl DepthStatistics.enter) := by
  refine run_map_foldl (fun d c => ?_) d calls
  cases c with
  | reset i => exact Option.map_id_apply'.symm
  | process e latency =>
    have henter (depths : DepthStatistics) :
        sampleDepth (d.call (.process e latency)).1.store e
          (d.process e latency).2.outcome depths = depths.enter (d.entry (.process e latency)) := by
      unfold sampleDepth DepthStatistics.enter
      simp only [entry, call, Call.instrument?]
      cases (d.process e latency).2.outcome with
      | error refusal => rfl
      | ok update => cases e.instrument?.bind (d.process e latency).1.store.book? <;> rfl
    exact congrArg (d.depths.map ·) (funext henter)

theorem run_instrumentStatistics (d : Dispatcher) (calls : List Call) :
    (d.run calls).1.instrumentStatistics =
      d.instrumentStatistics.map ((d.run calls).2.foldl InstrumentStatistics.enter) := by
  refine run_map_foldl (fun d c => ?_) d calls
  cases c with
  | reset i => exact Option.map_id_apply'.symm
  | process e latency =>
    change (sampleInstrument e latency d.instrumentStatistics).1 = _
    cases d.instrumentStatistics with
    | none => rfl
    | some s =>
      unfold sampleInstrument
      simp only [entry, InstrumentStatistics.enter, Call.instrument?, Option.map_some]
      cases e.instrument? <;> rfl

theorem run_sameBins (d : Dispatcher) (calls : List Call) :
    FeedStatistics.SameBins (d.run calls).1.statistics d.statistics := by
  induction calls generalizing d with
  | nil => exact .refl _
  | cons c rest ih =>
    refine (ih (d.call c).1).trans ?_
    cases c with
    | process e latency => exact FeedStatistics.sameBins_sample _ _ _
    | reset i => exact .refl _

theorem run_depths_binning (d : Dispatcher) (calls : List Call) :
    ((d.run calls).1.depths.map fun s => s.depths.binning) =
      d.depths.map fun s => s.depths.binning := by
  rw [run_depths, Option.map_map]
  congr 1
  funext s
  exact (DepthStatistics.merges_enter.foldl_append (d.run calls).2 [] (b := s) rfl).1

end Dispatcher
end TopOfBook
