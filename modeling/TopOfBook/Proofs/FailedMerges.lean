import TopOfBook.Proofs.Parts

/-! What a failed merge of two reports leaves behind. The statistics of the feed are looked at as
a whole before any of them is added, but the instruments and the depths come afterwards. So a
merge that stops there has changed the report. -/

namespace TopOfBook

namespace Report

variable {a b left : Report}

/-- Of the parts that come after the last bins nothing is added. -/
theorem Halted.rest (h : a.Halted b left) :
    left.depths = a.depths ∧ left.counters = a.counters ∧ left.liveOrders = a.liveOrders ∧
      left.books = a.books ∧ left.corrupted = a.corrupted := by
  cases h <;> exact ⟨rfl, rfl, rfl, rfl, rfl⟩

/-- Past the statistics of the feed their samples stay added. -/
theorem Halted.events (h : a.Halted b left)
    (hfeed : FeedStatistics.SameBins a.statistics b.statistics) :
    left.statistics.events = a.statistics.events + b.statistics.events := by
  cases h with
  | atFeed hother => exact absurd hfeed hother
  | atInstrument => rfl
  | atDepths => rfl

end Report

/-- A merge of two reports fails exactly when some of their bins differ. Then everything up to
those bins has been added: nothing when they are bins of the feed, and otherwise the statistics of
the feed and those of the instruments below the first one with other bins, or of all of them. The
depths, the counters, the orders, the books and the corrupted instruments are as they were. So
the report is as it was only if the bins of the feed differ, or the other one has seen nothing. -/
theorem failed_merge_leaves (a b : Report) :
    ((∃ left fault, a.merge b = (left, .error fault)) ↔ ¬ a.SameBins b) ∧
    ∀ left fault, a.merge b = (left, .error fault) →
      fault = .differentBinning ∧ a.Halted b left ∧
      (left.depths = a.depths ∧ left.counters = a.counters ∧ left.liveOrders = a.liveOrders ∧
        left.books = a.books ∧ left.corrupted = a.corrupted) ∧
      (0 < b.statistics.events →
        (left = a ↔ ¬ FeedStatistics.SameBins a.statistics b.statistics)) := by
  rcases a.merge_cases b with ⟨sum, hmerge, hbins, -⟩ | ⟨left, hmerge, hbins, hhalted⟩
  · rw [hmerge]
    exact ⟨iff_of_false (by simp) (not_not.2 hbins), by simp⟩
  · rw [hmerge]
    refine ⟨iff_of_true ⟨left, _, rfl⟩ hbins, ?_⟩
    rintro _ _ ⟨⟩
    refine ⟨rfl, hhalted, hhalted.rest, fun hevents => ⟨?_, ?_⟩⟩
    · rintro rfl hfeed
      have hadded := hhalted.events hfeed
      omega
    · intro hfeed
      cases hhalted with
      | atFeed => rfl
      | atInstrument _ _ hsame => exact absurd hsame hfeed
      | atDepths _ _ _ hsame => exact absurd hsame hfeed

/-- Feeds that are counted by the same configuration are counted in the same bins. -/
theorem Dispatcher.sameBins_of_make {c c' : EngineConfig} {d d' : Dispatcher}
    (hd : make c = .ok d) (hd' : make c' = .ok d') (h : c.statistics = c'.statistics)
    (calls calls' : List Call) :
    FeedStatistics.SameBins (d.run calls).1.report.statistics
      (d'.run calls').1.report.statistics := by
  obtain ⟨_, statistics, _, -, hmake, -, hfresh⟩ := make_eq_ok hd
  obtain ⟨_, statistics', _, -, hmake', -, hfresh'⟩ := make_eq_ok hd'
  have hsame : d.statistics = d'.statistics := by
    rw [h, hmake'] at hmake
    rw [hfresh, hfresh']
    exact (Except.ok.inj hmake).symm
  have hbins := (d'.run_sameBins calls').symm
  rw [← hsame] at hbins
  exact (d.run_sameBins calls).trans hbins

/-- Depths are collected, up to so many levels. -/
def collectsDepths (maxBookDepth : UInt64) : EngineConfig :=
  { EngineConfig.standard with enableDepthStatistics := true, maxBookDepth }

/-- One order. -/
def oneOrder : List Call := [.process ⟨default, .addOrder ⟨1, ⟨1⟩, .buy, ⟨10⟩, ⟨5⟩⟩⟩ 0]

/-- Two reports of that order, which differ only in how deep the books may be. -/
theorem oneOrder_otherDepths :
    ∃ d d', Dispatcher.make (collectsDepths 5) = .ok d ∧
      Dispatcher.make (collectsDepths 6) = .ok d' ∧
      ¬ (d.run oneOrder).1.report.SameBins (d'.run oneOrder).1.report ∧
      FeedStatistics.SameBins (d.run oneOrder).1.report.statistics
        (d'.run oneOrder).1.report.statistics ∧
      0 < (d'.run oneOrder).1.report.statistics.events := by
  obtain ⟨d, hd, hlast⟩ : ∃ d, Dispatcher.make (collectsDepths 5) = .ok d ∧
      (d.depths.map fun s => s.depths.binning).map IntegerRange.last = some 5 := ⟨_, rfl, rfl⟩
  obtain ⟨d', hd', hlast'⟩ : ∃ d, Dispatcher.make (collectsDepths 6) = .ok d ∧
      (d.depths.map fun s => s.depths.binning).map IntegerRange.last = some 6 := ⟨_, rfl, rfl⟩
  refine ⟨d, d', hd, hd', fun h => ?_, Dispatcher.sameBins_of_make hd hd' rfl _ _, ?_⟩
  · rw [← d.run_depths_binning oneOrder, Option.map_map, Option.map_eq_some_iff] at hlast
    rw [← d'.run_depths_binning oneOrder, Option.map_map, Option.map_eq_some_iff] at hlast'
    obtain ⟨s, hs, hfive⟩ := hlast
    obtain ⟨t, ht, hsix⟩ := hlast'
    have hbins := h.depths s t hs ht
    simp only [Function.comp_apply, hbins] at hfive hsix
    omega
  · change 0 < (d'.run oneOrder).1.statistics.latency.samples
    rw [d'.run_latency oneOrder]
    exact Nat.succ_pos _

theorem failed_merge_leaves_otherDepths :
    ∃ d d' left, Dispatcher.make (collectsDepths 5) = .ok d ∧
      Dispatcher.make (collectsDepths 6) = .ok d' ∧
      (d.run oneOrder).1.report.merge (d'.run oneOrder).1.report =
        (left, .error .differentBinning) ∧
      left.counters = (d.run oneOrder).1.report.counters ∧
      left ≠ (d.run oneOrder).1.report := by
  obtain ⟨d, d', hd, hd', hdiffer, hfeed, hevents⟩ := oneOrder_otherDepths
  obtain ⟨hfails, hleaves⟩ := failed_merge_leaves (d.run oneOrder).1.report
    (d'.run oneOrder).1.report
  obtain ⟨left, fault, hmerge⟩ := hfails.2 hdiffer
  obtain ⟨rfl, -, ⟨-, hcounters, -⟩, hsame⟩ := hleaves left fault hmerge
  exact ⟨d, d', left, hd, hd', hmerge, hcounters, fun h => (hsame hevents).1 h hfeed⟩

/-- A merge that fails need not leave the report as it was. -/
theorem failed_merge_not_atomic :
    ¬ ∀ (c c' : EngineConfig) (d d' : Dispatcher), Dispatcher.make c = .ok d →
      Dispatcher.make c' = .ok d' →
      ∀ (calls calls' : List Call) (left : Report) (fault : HistogramFault),
        (d.run calls).1.report.merge (d'.run calls').1.report = (left, .error fault) →
        left = (d.run calls).1.report := by
  intro hatomic
  obtain ⟨d, d', hd, hd', hdiffer, hfeed, hevents⟩ := oneOrder_otherDepths
  rcases Report.merge_cases (d.run oneOrder).1.report (d'.run oneOrder).1.report with
    ⟨-, -, hbins, -⟩ | ⟨left, hmerge, -, hhalted⟩
  · exact hdiffer hbins
  · obtain rfl := hatomic _ _ d d' hd hd' oneOrder oneOrder left _ hmerge
    have hadded := hhalted.events hfeed
    omega

end TopOfBook
