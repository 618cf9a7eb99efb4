import TopOfBook.Proofs.BinningChoices
import TopOfBook.Proofs.RatePeriods

/-! The statistics of one stream take in those of another as a whole or not at all. The histograms
are merged in place and one after the other, so all bins are compared before the first of them. -/

namespace TopOfBook

namespace FeedStatistics

/-! ### One after the other -/

/-- A change that may be refused, and then changes nothing. -/
abbrev Step := FeedStatistics → Except HistogramFault FeedStatistics

/-- Makes one change after the other, up to the first that is refused. -/
def runSteps : List Step → FeedStatistics → FeedStatistics × Except HistogramFault Unit
  | [], s => (s, .ok ())
  | step :: rest, s =>
    match step s with
    | .ok s => runSteps rest s
    | .error fault => (s, .error fault)

/-- The changes that take in other statistics. -/
def mergeSteps (b : FeedStatistics) : List Step :=
  [fun a => return { a with latency := ← a.latency.merge b.latency },
    fun a => return { a with interarrival := ← a.interarrival.merge b.interarrival },
    fun a => return { a with perSecond := ← a.perSecond.merge b.perSecond },
    fun a => return { a with perMillisecond := ← a.perMillisecond.merge b.perMillisecond },
    fun a => return { a with perMicrosecond := ← a.perMicrosecond.merge b.perMicrosecond },
    fun a => return { a with lastFeed := a.lastFeed.merge Timestamp.latest b.lastFeed }]

/-- Whether all histograms have the same bins. -/
def sameBins (a b : FeedStatistics) : Bool :=
  a.latency.binning == b.latency.binning && a.interarrival.binning == b.interarrival.binning &&
    a.perSecond.rates.binning == b.perSecond.rates.binning &&
    a.perMillisecond.rates.binning == b.perMillisecond.rates.binning &&
    a.perMicrosecond.rates.binning == b.perMicrosecond.rates.binning

/-- Takes in other statistics in place. -/
def absorb (a b : FeedStatistics) : FeedStatistics × Except HistogramFault Unit :=
  if a.sameBins b then runSteps (mergeSteps b) a else (a, .error .differentBinning)

/-- What a change in place comes to. -/
def result (after : FeedStatistics × Except HistogramFault Unit) :
    Except HistogramFault FeedStatistics :=
  after.2.map fun _ => after.1

variable {a b : FeedStatistics}

theorem result_runSteps (steps : List Step) (s : FeedStatistics) :
    result (runSteps steps s) = steps.foldlM (fun s step => step s) s := by
  induction steps generalizing s with
  | nil => rfl
  | cons step rest ih =>
    rw [runSteps, List.foldlM_cons]
    cases step s with
    | ok s => exact ih s
    | error fault => rfl

theorem result_mergeSteps (a b : FeedStatistics) :
    result (runSteps (mergeSteps b) a) = a.merge b := by
  rw [result_runSteps]
  simp only [merge, mergeSteps, List.foldlM_cons, List.foldlM_nil, bind_assoc, pure_bind, bind_pure]
  cases a.lastFeed <;> cases b.lastFeed <;> rfl

theorem eq_of_result_eq_ok {after : FeedStatistics × Except HistogramFault Unit}
    {s : FeedStatistics} (h : result after = .ok s) : after = (s, .ok ()) := by
  rcases after with ⟨s, _ | _⟩ <;> cases h
  rfl

theorem eq_of_result_eq_error {after : FeedStatistics × Except HistogramFault Unit}
    {fault : HistogramFault} (h : result after = .error fault) : after.2 = .error fault := by
  rcases after with ⟨s, _ | _⟩ <;> cases h
  rfl

theorem runSteps_of_sameBins (h : SameBins a b) :
    runSteps (mergeSteps b) a = (a.plus b, .ok ()) :=
  eq_of_result_eq_ok ((result_mergeSteps a b).trans (merge_eq_plus h))

/-- Without the comparison some change would be refused, with those before it already made. -/
theorem runSteps_of_not_sameBins (h : ¬ SameBins a b) :
    (runSteps (mergeSteps b) a).2 = .error .differentBinning :=
  eq_of_result_eq_error ((result_mergeSteps a b).trans (merge_eq_error h))

theorem sameBins_iff : a.sameBins b = true ↔ SameBins a b := by
  simp only [sameBins, Bool.and_eq_true, beq_iff_eq]
  constructor
  · rintro ⟨⟨⟨⟨hlatency, hinterarrival⟩, hsecond⟩, hmilli⟩, hmicro⟩
    exact ⟨hlatency, hinterarrival, hsecond, hmilli, hmicro⟩
  · rintro ⟨hlatency, hinterarrival, hsecond, hmilli, hmicro⟩
    exact ⟨⟨⟨⟨hlatency, hinterarrival⟩, hsecond⟩, hmilli⟩, hmicro⟩

theorem absorb_of_sameBins (h : SameBins a b) : a.absorb b = (a.plus b, .ok ()) := by
  rw [absorb, if_pos (sameBins_iff.2 h), runSteps_of_sameBins h]

theorem absorb_of_not_sameBins (h : ¬ SameBins a b) :
    a.absorb b = (a, .error .differentBinning) :=
  if_neg (mt sameBins_iff.1 h)

/-! ### As a whole -/

/-- The rates of both, beside the window and the last rate of the first. -/
structure RatesJoined (a b sum : RateDistribution) : Prop where
  rates : a.rates.merge b.rates = .ok sum.rates
  window : sum.window = a.window
  lastRate : sum.lastRate = a.lastRate

/-- The samples of both and no others, beside what the first one keeps. The clock of the feed is
the later of the two. -/
structure Joined (a b sum : FeedStatistics) : Prop where
  latency : a.latency.merge b.latency = .ok sum.latency
  interarrival : a.interarrival.merge b.interarrival = .ok sum.interarrival
  perSecond : RatesJoined a.perSecond b.perSecond sum.perSecond
  perMillisecond : RatesJoined a.perMillisecond b.perMillisecond sum.perMillisecond
  perMicrosecond : RatesJoined a.perMicrosecond b.perMicrosecond sum.perMicrosecond
  events : sum.events = a.events + b.events
  interarrivals : sum.interarrival.samples = a.interarrival.samples + b.interarrival.samples
  lastFeed : sum.lastFeed.map Timestamp.nanos =
    max (a.lastFeed.map Timestamp.nanos) (b.lastFeed.map Timestamp.nanos)
  lastReport : sum.lastReport = a.lastReport
  interval : sum.interval = a.interval

theorem ratesJoined_plus {a b : RateDistribution} (h : a.rates.binning = b.rates.binning) :
    RatesJoined a b (a.plus b) :=
  ⟨Histogram.merge_eq_plus h, rfl, rfl⟩

theorem nanos_latest (x y : Timestamp) : (x.latest y).nanos = max x.nanos y.nanos := by
  have hmax : max x.nanos y.nanos = if x.nanos ≤ y.nanos then y.nanos else x.nanos := rfl
  rw [hmax, Timestamp.latest]
  split_ifs with hlt hle hle
  · rfl
  · exact absurd (UInt64.le_of_lt hlt) hle
  · exact UInt64.le_antisymm hle (UInt64.not_lt.1 hlt)
  · rfl

theorem joined_plus (h : SameBins a b) : Joined a b (a.plus b) where
  latency := Histogram.merge_eq_plus h.latency
  interarrival := Histogram.merge_eq_plus h.interarrival
  perSecond := ratesJoined_plus h.perSecond
  perMillisecond := ratesJoined_plus h.perMillisecond
  perMicrosecond := ratesJoined_plus h.perMicrosecond
  events := rfl
  interarrivals := rfl
  lastFeed := by
    cases ha : a.lastFeed <;> cases hb : b.lastFeed <;> simp [plus, ha, hb, nanos_latest]
  lastReport := rfl
  interval := rfl

/-- A merge either takes in all of the other statistics or changes nothing, as the bins decide. It
comes to the same in place, where nothing less than the whole comparison would do. -/
structure AllOrNothing (a b : FeedStatistics) : Prop where
  agrees : result (a.absorb b) = a.merge b
  refused : (∃ fault, (a.absorb b).2 = .error fault) ↔ ¬ SameBins a b
  unchanged : ∀ fault, (a.absorb b).2 = .error fault →
    fault = .differentBinning ∧ (a.absorb b).1 = a
  joined : (a.absorb b).2 = .ok () → Joined a b (a.absorb b).1
  needed : (∃ fault, (runSteps (mergeSteps b) a).2 = .error fault) ↔ ¬ SameBins a b

theorem allOrNothing (a b : FeedStatistics) : AllOrNothing a b := by
  by_cases h : SameBins a b
  · have hsteps := runSteps_of_sameBins h
    have habsorb := absorb_of_sameBins h
    refine ⟨?_, ?_, fun fault hfault => ?_, fun _ => ?_, ?_⟩
    · rw [habsorb, merge_eq_plus h]
      rfl
    · simp [habsorb, h]
    · rw [habsorb] at hfault
      cases hfault
    · rw [habsorb]
      exact joined_plus h
    · simp [hsteps, h]
  · have hsteps := runSteps_of_not_sameBins h
    have habsorb := absorb_of_not_sameBins h
    refine ⟨?_, ?_, fun fault hfault => ?_, fun hok => ?_, ?_⟩
    · rw [habsorb, merge_eq_error h]
      rfl
    · simp [habsorb, h]
    · rw [habsorb] at hfault ⊢
      cases hfault
      exact ⟨rfl, rfl⟩
    · rw [habsorb] at hok
      cases hok
    · simp [hsteps, h]

/-! ### Statistics of two configurations -/

/-- What sampling, merging and resetting lead to, from new statistics on. -/
inductive Reached (c : StatisticsConfig) : FeedStatistics → Prop
  | new {s : FeedStatistics} : make c = .ok s → Reached c s
  | sample {s : FeedStatistics} (t : Timestamp) (nanos : UInt64) : Reached c s →
    Reached c (s.sample t nanos).1
  | merge {s : FeedStatistics} (other : FeedStatistics) : Reached c s →
    Reached c (s.absorb other).1
  | reset {s : FeedStatistics} : Reached c s → Reached c s.reset

/-- Nothing changes the bins. -/
theorem Reached.exists_new {c : StatisticsConfig} {s : FeedStatistics} (hs : Reached c s) :
    ∃ new, make c = .ok new ∧ SameBins s new := by
  induction hs with
  | @new s hs => exact ⟨s, hs, .refl s⟩
  | sample t nanos _ ih =>
    obtain ⟨new, hnew, hbins⟩ := ih
    exact ⟨new, hnew, (sameBins_sample _ t nanos).trans hbins⟩
  | @merge s other _ ih =>
    obtain ⟨new, hnew, hbins⟩ := ih
    refine ⟨new, hnew, SameBins.trans ?_ hbins⟩
    by_cases h : SameBins s other
    · rw [absorb_of_sameBins h]
      exact sameBins_plus s other
    · rw [absorb_of_not_sameBins h]
      exact .refl s
  | reset _ ih =>
    obtain ⟨new, hnew, hbins⟩ := ih
    exact ⟨new, hnew, hbins.latency, hbins.interarrival, hbins.perSecond, hbins.perMillisecond,
      hbins.perMicrosecond⟩

end FeedStatistics

/-- Histograms of durations have the same bins if and only if the same ones were chosen. -/
theorem DurationHistogram.binning_eq_iff {x y : BinningChoice} {h h' : DurationHistogram}
    (hx : make x = .ok h) (hy : make y = .ok h') : h.binning = h'.binning ↔ x = y := by
  obtain ⟨b, hb, rfl⟩ := make_eq_ok hx
  obtain ⟨b', hb', rfl⟩ := make_eq_ok hy
  have hx := BinningChoice.Verdict.choice_eq (hb ▸ x.verdict)
  have hy := BinningChoice.Verdict.choice_eq (hb' ▸ y.verdict)
  rw [← hx, ← hy]
  exact ChosenBinning.choice_inj.symm

theorem RateDistribution.binning_eq_iff {maxRate maxRate' measurement sampling : UInt64}
    {d d' : RateDistribution} (h : make maxRate measurement sampling = .ok d)
    (h' : make maxRate' measurement sampling = .ok d') :
    d.rates.binning = d'.rates.binning ↔ maxRate = maxRate' := by
  obtain ⟨⟨first, last, _⟩, hfirst, hlast, hd, -⟩ := make_eq_ok h
  obtain ⟨⟨first', last', _⟩, hfirst', hlast', hd', -⟩ := make_eq_ok h'
  dsimp only at hfirst hlast hfirst' hlast'
  subst hfirst hlast hfirst' hlast'
  simp [hd, hd', Histogram.empty, UInt64.toNat_inj]

/-- The bins of the five histograms are configured the same. -/
structure StatisticsConfig.SameBins (c c' : StatisticsConfig) : Prop where
  processingLatency : c.processingLatency = c'.processingLatency
  interarrival : c.interarrival = c'.interarrival
  maxPerSecond : c.maxPerSecond = c'.maxPerSecond
  maxPerMillisecond : c.maxPerMillisecond = c'.maxPerMillisecond
  maxPerMicrosecond : c.maxPerMicrosecond = c'.maxPerMicrosecond

namespace FeedStatistics

theorem sameBins_iff_of_make {c c' : StatisticsConfig} {s s' : FeedStatistics}
    (h : make c = .ok s) (h' : make c' = .ok s') : SameBins s s' ↔ c.SameBins c' := by
  obtain ⟨_, _, _, _, _, hlatency, hinterarrival, hsecond, hmilli, hmicro, rfl⟩ := make_eq_ok h
  obtain ⟨_, _, _, _, _, hlatency', hinterarrival', hsecond', hmilli', hmicro', rfl⟩ :=
    make_eq_ok h'
  have hl := DurationHistogram.binning_eq_iff hlatency hlatency'
  have hi := DurationHistogram.binning_eq_iff hinterarrival hinterarrival'
  have hs := RateDistribution.binning_eq_iff hsecond hsecond'
  have hm := RateDistribution.binning_eq_iff hmilli hmilli'
  have hu := RateDistribution.binning_eq_iff hmicro hmicro'
  constructor
  · rintro ⟨h₁, h₂, h₃, h₄, h₅⟩
    exact ⟨hl.1 h₁, hi.1 h₂, hs.1 h₃, hm.1 h₄, hu.1 h₅⟩
  · rintro ⟨h₁, h₂, h₃, h₄, h₅⟩
    exact ⟨hl.2 h₁, hi.2 h₂, hs.2 h₃, hm.2 h₄, hu.2 h₅⟩

/-- Statistics merge whole or not at all, whatever they have seen. Those of two configurations
merge if and only if both have the same bins configured. -/
theorem merge_all_or_nothing : (∀ a b : FeedStatistics, AllOrNothing a b) ∧
    ∀ (c c' : StatisticsConfig) (a b : FeedStatistics), Reached c a → Reached c' b →
      (SameBins a b ↔ c.SameBins c') := by
  refine ⟨allOrNothing, fun c c' a b ha hb => ?_⟩
  obtain ⟨s, hs, has⟩ := ha.exists_new
  obtain ⟨s', hs', hbs⟩ := hb.exists_new
  rw [← sameBins_iff_of_make hs hs']
  exact ⟨fun h => has.symm.trans (h.trans hbs), fun h => has.trans (h.trans hbs.symm)⟩

/-- The rate that is merged last has other bins on one side: nothing is merged. -/
theorem merge_all_or_nothing_otherRateBound : ∃ a b,
    make .aggregate = .ok a ∧ make { StatisticsConfig.aggregate with maxPerMicrosecond := 10 } =
      .ok b ∧ let seen := (a.sample ⟨5⟩ 7).1
        seen.absorb b = (seen, .error .differentBinning) ∧ seen.events = 1 := by
  refine ⟨_, _, rfl, rfl, ?_⟩
  intro seen
  have hseen : Reached .aggregate seen := .sample ⟨5⟩ 7 (.new rfl)
  obtain ⟨hmerge, hbins⟩ := merge_all_or_nothing
  have hother := mt (hbins .aggregate { StatisticsConfig.aggregate with maxPerMicrosecond := 10 }
    seen _ hseen (.new rfl)).1 fun h => absurd h.maxPerMicrosecond (by decide)
  obtain ⟨fault, hfault⟩ := (hmerge seen _).refused.2 hother
  obtain ⟨rfl, hsame⟩ := (hmerge seen _).unchanged fault hfault
  exact ⟨Prod.ext hsame hfault, rfl⟩

end FeedStatistics
end TopOfBook
