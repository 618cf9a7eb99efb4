import Mathlib.Data.List.MinMax
import TopOfBook.Proofs.WholeMerges

/-! Progress lines come a whole interval of feed time apart, and none is missed: an event brings a
line if and only if it is an interval or more past the last line, or past the first event while
there is no line. The clock of the feed may stand still, jump or run backwards, and the interval
is cut off at the largest word. -/

namespace TopOfBook

theorem Histogram.samples_summary {B T R : Type} [Binning B T] [LT T] [DecidableLT T] [Scalar R]
    [Measured T R] (h : Histogram B T) : (h.summary : Summary R).samples = h.samples := by
  unfold summary
  split
  · exact (beq_iff_eq.1 ‹_›).symm
  · rfl

/-- A difference of some nanoseconds is not cut off at zero. -/
theorem Timestamp.le_since_iff {t last : Timestamp} {interval : UInt64} (h : 0 < interval.toNat) :
    interval ≤ t.since last ↔ last.nanos.toNat + interval.toNat ≤ t.nanos.toNat := by
  unfold since
  rw [UInt64.le_iff_toNat_le]
  split
  · have hle := UInt64.le_iff_toNat_le.1 ‹last.nanos ≤ t.nanos›
    rw [UInt64.toNat_sub_of_le _ _ ‹_›]
    omega
  · have hlt := UInt64.lt_iff_toNat_lt.1 (UInt64.not_le.1 ‹¬ last.nanos ≤ t.nanos›)
    rw [UInt64.toNat_zero]
    omega

namespace FeedStatistics

/-- A progress line, with the feed time of its event. -/
structure Line where
  time : Timestamp
  progress : Progress

/-- The feed time of the last line, or of the first event while there is no line. -/
def lastTime (first : Timestamp) (lines : List Line) : Timestamp :=
  lines.getLast?.elim first Line.time

/-- Takes events one after the other, with all progress lines in their order. -/
def sampleAll (s : FeedStatistics) (xs : List (Timestamp × UInt64)) : FeedStatistics × List Line :=
  xs.foldl (fun (s, lines) (t, nanos) =>
    ((s.sample t nanos).1, lines ++ ((s.sample t nanos).2.map (Line.mk t)).toList)) (s, [])

variable {s : FeedStatistics} {c : StatisticsConfig} {xs : List (Timestamp × UInt64)}

theorem sampleAll_nil (s : FeedStatistics) : s.sampleAll [] = (s, []) := rfl

theorem sampleAll_concat (s : FeedStatistics) (xs : List (Timestamp × UInt64)) (t : Timestamp)
    (nanos : UInt64) :
    s.sampleAll (xs ++ [(t, nanos)]) =
      (((s.sampleAll xs).1.sample t nanos).1,
        (s.sampleAll xs).2 ++ (((s.sampleAll xs).1.sample t nanos).2.map (Line.mk t)).toList) := by
  rw [sampleAll, List.foldl_append]
  rfl

/-- The lines of the first events are the first lines. -/
theorem sampleAll_prefix {before : List (Timestamp × UInt64)} (h : before <+: xs) :
    (s.sampleAll before).2 <+: (s.sampleAll xs).2 := by
  obtain ⟨rest, rfl⟩ := h
  induction rest using List.reverseRecOn with
  | nil => rw [List.append_nil]
  | append_singleton rest x ih =>
    rw [← List.append_assoc, sampleAll_concat]
    exact ih.trans (List.prefix_append _ _)

theorem lastTime_concat (first : Timestamp) (lines : List Line) (line : Line) :
    lastTime first (lines ++ [line]) = line.time := by
  rw [lastTime, List.getLast?_concat, Option.elim_some]

/-- The feed times of the first event and of the lines end with the last one. -/
theorem getLast?_times (first : Timestamp) (lines : List Line) :
    (first :: lines.map Line.time).getLast? = some (lastTime first lines) := by
  rw [List.getLast?_cons, List.getLast?_map, lastTime]
  cases lines.getLast? <;> rfl

/-! ### One event -/

/-- An event without a line leaves the time of the last report, its own when it is the first. -/
theorem sample_eq (s : FeedStatistics) (t : Timestamp) (nanos : UInt64) :
    s.sample t nanos =
      if s.interval ≤ t.since (s.lastReport.getD t) then
        ({ s.count t nanos with lastReport := some t }, some (s.count t nanos).progress)
      else ({ s.count t nanos with lastReport := some (s.lastReport.getD t) }, none) := rfl

theorem events_sample (s : FeedStatistics) (t : Timestamp) (nanos : UInt64) :
    (s.sample t nanos).1.events = s.events + 1 := by
  rw [sample_eq]
  split <;> rfl

theorem interval_sample (s : FeedStatistics) (t : Timestamp) (nanos : UInt64) :
    (s.sample t nanos).1.interval = s.interval := by
  rw [sample_eq]
  split <;> rfl

/-- A line counts the event that it comes with. -/
theorem events_progress_count (s : FeedStatistics) (t : Timestamp) (nanos : UInt64) :
    (s.count t nanos).progress.events = s.events + 1 :=
  Histogram.samples_summary _

/-! ### All events -/

/-- What holds after the events `xs`, the first of them at the time `first`. -/
structure Paced (s : FeedStatistics) (first : Timestamp) (xs : List (Timestamp × UInt64)) :
    Prop where
  interval : (s.sampleAll xs).1.interval = s.interval
  events : (s.sampleAll xs).1.events = xs.length
  lastReport : (s.sampleAll xs).1.lastReport = some (lastTime first (s.sampleAll xs).2)
  spaced : (first :: (s.sampleAll xs).2.map Line.time).IsChain fun t t' =>
    t.nanos.toNat + s.interval.toNat ≤ t'.nanos.toNat
  elapsed : first.nanos.toNat + (s.sampleAll xs).2.length * s.interval.toNat ≤
    (lastTime first (s.sampleAll xs).2).nanos.toNat
  reached : lastTime first (s.sampleAll xs).2 ∈ xs.map Prod.fst

/-- The next event brings a line if and only if it is an interval past the last one. -/
theorem Paced.next {first : Timestamp} (h : Paced s first xs) (hpos : 0 < s.interval.toNat)
    (t : Timestamp) (nanos : UInt64) :
    let last := lastTime first (s.sampleAll xs).2
    let after := s.sampleAll (xs ++ [(t, nanos)])
    (last.nanos.toNat + s.interval.toNat ≤ t.nanos.toNat ∧ after.1.lastReport = some t ∧
      ∃ line, line.time = t ∧ line.progress.events = xs.length + 1 ∧
        after.2 = (s.sampleAll xs).2 ++ [line]) ∨
    (t.nanos.toNat < last.nanos.toNat + s.interval.toNat ∧ after.1.lastReport = some last ∧
      after.2 = (s.sampleAll xs).2) := by
  intro last after
  have hdue : (s.sampleAll xs).1.interval ≤ t.since ((s.sampleAll xs).1.lastReport.getD t) ↔
      last.nanos.toNat + s.interval.toNat ≤ t.nanos.toNat := by
    rw [h.interval, h.lastReport, Option.getD_some]
    exact Timestamp.le_since_iff hpos
  have hafter : after = _ := sampleAll_concat s xs t nanos
  rw [sample_eq] at hafter
  by_cases hle : last.nanos.toNat + s.interval.toNat ≤ t.nanos.toNat
  · rw [if_pos (hdue.2 hle)] at hafter
    refine .inl ⟨hle, ?_, ⟨t, _⟩, rfl, ?_, congrArg Prod.snd hafter⟩
    · rw [hafter]
    · rw [events_progress_count, h.events]
  · rw [if_neg (mt hdue.1 hle)] at hafter
    refine .inr ⟨Nat.not_le.1 hle, ?_, ?_⟩
    · rw [hafter, h.lastReport, Option.getD_some]
    · rw [hafter, Option.map_none, Option.toList_none, List.append_nil]

theorem Paced.concat {first : Timestamp} (h : Paced s first xs) (hpos : 0 < s.interval.toNat)
    (t : Timestamp) (nanos : UInt64) : Paced s first (xs ++ [(t, nanos)]) := by
  have hinterval : (s.sampleAll (xs ++ [(t, nanos)])).1.interval = s.interval := by
    rw [sampleAll_concat, interval_sample, h.interval]
  have hevents : (s.sampleAll (xs ++ [(t, nanos)])).1.events = (xs ++ [(t, nanos)]).length := by
    rw [sampleAll_concat, events_sample, h.events, List.length_append, List.length_singleton]
  rcases h.next hpos t nanos with ⟨hdue, hreport, line, rfl, -, hlines⟩ | ⟨-, hreport, hlines⟩
  · refine ⟨hinterval, hevents, ?_, ?_, ?_, ?_⟩ <;> rw [hlines]
    · rw [hreport, lastTime_concat]
    · rw [List.map_append, ← List.cons_append]
      refine h.spaced.append (.singleton _) fun x hx y hy => ?_
      rw [getLast?_times, Option.mem_some_iff] at hx
      rw [List.map_singleton, List.head?_cons, Option.mem_some_iff] at hy
      rwa [← hx, ← hy]
    · rw [lastTime_concat, List.length_append, List.length_singleton, Nat.succ_mul]
      have := h.elapsed
      omega
    · rw [lastTime_concat]
      exact List.mem_map_of_mem (List.mem_append_right _ (List.mem_singleton_self _))
  · refine ⟨hinterval, hevents, ?_, ?_, ?_, ?_⟩ <;> rw [hlines]
    · exact hreport
    · exact h.spaced
    · exact h.elapsed
    · rw [List.map_append]
      exact List.mem_append_left _ h.reached

/-! ### From the first event on -/

/-- Statistics that are new, or that were reset after anything. -/
inductive Begun (c : StatisticsConfig) : FeedStatistics → Prop
  | new {s : FeedStatistics} : make c = .ok s → Begun c s
  | reset {s : FeedStatistics} : Reached c s → Begun c s.reset

theorem toNat_intervalOf (seconds : UInt64) :
    (intervalOf seconds).toNat = min (seconds.toNat * 10 ^ 9) (2 ^ 64 - 1) := by
  have hnanos : nanosPerSecond.toNat = 10 ^ 9 := rfl
  have hsize : UInt64.size = 2 ^ 64 := rfl
  rw [intervalOf, hnanos, hsize, Nat.toUInt64, UInt64.toNat_ofNat', Nat.mod_eq_of_lt (by omega)]

theorem Reached.interval_eq (h : Reached c s) :
    s.interval = intervalOf c.reportingIntervalSeconds := by
  induction h with
  | new h =>
    obtain ⟨_, _, _, _, _, -, -, -, -, -, rfl⟩ := make_eq_ok h
    rfl
  | sample t nanos _ ih => rw [interval_sample, ih]
  | @merge s other _ ih =>
    by_cases hbins : SameBins s other
    · rw [absorb_of_sameBins hbins]
      exact ih
    · rw [absorb_of_not_sameBins hbins]
      exact ih
  | reset _ ih => exact ih

theorem Begun.interval_eq (h : Begun c s) : s.interval = intervalOf c.reportingIntervalSeconds := by
  cases h with
  | new h => exact (Reached.new h).interval_eq
  | reset h => exact h.interval_eq

theorem Begun.lastReport_eq (h : Begun c s) : s.lastReport = none := by
  cases h with
  | new h =>
    obtain ⟨_, _, _, _, _, -, -, -, -, -, rfl⟩ := make_eq_ok h
    rfl
  | reset => rfl

theorem Begun.events_eq (h : Begun c s) : s.events = 0 := by
  cases h with
  | new h => exact congrArg Histogram.samples (holds_of_make h).latency
  | reset => rfl

/-- The first event brings no line. -/
theorem Begun.sampleAll_singleton (h : Begun c s) (hpos : 0 < s.interval.toNat) (t : Timestamp)
    (nanos : UInt64) :
    s.sampleAll [(t, nanos)] = ({ s.count t nanos with lastReport := some t }, []) := by
  have hnone : ¬ s.interval ≤ t.since (s.lastReport.getD t) := by
    rw [h.lastReport_eq, Option.getD_none, Timestamp.le_since_iff hpos]
    omega
  have hfirst := sampleAll_concat s [] t nanos
  rw [sampleAll_nil, sample_eq, if_neg hnone, h.lastReport_eq] at hfirst
  exact hfirst

theorem Begun.paced_singleton (h : Begun c s) (hpos : 0 < s.interval.toNat) (t : Timestamp)
    (nanos : UInt64) : Paced s t [(t, nanos)] := by
  have hfirst := h.sampleAll_singleton hpos t nanos
  refine ⟨?_, ?_, ?_, ?_, ?_, ?_⟩ <;> rw [hfirst]
  · rfl
  · exact congrArg (· + 1) h.events_eq
  · rfl
  · exact .singleton t
  · simp [lastTime]
  · exact List.mem_singleton_self t

theorem Begun.paced (h : Begun c s) (hpos : 0 < s.interval.toNat) (first : Timestamp × UInt64)
    (rest : List (Timestamp × UInt64)) : Paced s first.1 (first :: rest) := by
  induction rest using List.reverseRecOn with
  | nil => exact h.paced_singleton hpos first.1 first.2
  | append_singleton rest x ih => exact ih.concat hpos x.1 x.2

/-- The lines of some events come on time. Each is an interval or more past the one before, or
past the first event. An event without a line is less than that past the last one, and a line
counts the events up to its own. -/
structure OnTime (s : FeedStatistics) (interval : Nat) (first : Timestamp × UInt64)
    (rest : List (Timestamp × UInt64)) : Prop where
  spaced : (first.1 :: (s.sampleAll (first :: rest)).2.map Line.time).IsChain fun t t' =>
    t.nanos.toNat + interval ≤ t'.nanos.toNat
  inOrder : ∀ before, before <+: first :: rest →
    (s.sampleAll before).2 <+: (s.sampleAll (first :: rest)).2
  each : ∀ before x, before ++ [x] <+: first :: rest →
    let earlier := (s.sampleAll before).2
    ((s.sampleAll (before ++ [x])).2 = earlier ∧
      x.1.nanos.toNat < (lastTime first.1 earlier).nanos.toNat + interval) ∨
    ∃ line, (s.sampleAll (before ++ [x])).2 = earlier ++ [line] ∧ line.time = x.1 ∧
      line.progress.events = (before ++ [x]).length
  bounded : (s.sampleAll (first :: rest)).2.length * interval ≤
    ((first :: rest).map fun x => x.1.nanos.toNat).foldr max 0 - first.1.nanos.toNat

theorem Begun.onTime (h : Begun c s) (hpos : 0 < s.interval.toNat) (first : Timestamp × UInt64)
    (rest : List (Timestamp × UInt64)) : OnTime s s.interval.toNat first rest := by
  have hpaced := h.paced hpos first rest
  refine ⟨hpaced.spaced, fun before => sampleAll_prefix, fun before x hprefix => ?_, ?_⟩
  · obtain ⟨t, nanos⟩ := x
    cases before with
    | nil =>
      obtain rfl : (t, nanos) = first := (List.cons_prefix_cons.1 hprefix).1
      rw [List.nil_append, h.sampleAll_singleton hpos]
      exact .inl ⟨rfl, Nat.lt_add_of_pos_right hpos⟩
    | cons y before =>
      obtain rfl : y = first := (List.cons_prefix_cons.1 hprefix).1
      rcases (h.paced hpos y before).next hpos t nanos with
        ⟨-, -, line, htime, hevents, hlines⟩ | ⟨hearly, -, hlines⟩
      · refine .inr ⟨line, hlines, htime, ?_⟩
        rw [hevents, List.length_append, List.length_singleton]
      · exact .inl ⟨hlines, hearly⟩
  · have hlatest : (lastTime first.1 (s.sampleAll (first :: rest)).2).nanos.toNat ≤
        ((first :: rest).map fun x => x.1.nanos.toNat).foldr max 0 := by
      obtain ⟨x, hx, hlast⟩ := List.mem_map.1 hpaced.reached
      rw [← hlast]
      exact List.le_max_of_le' 0 (List.mem_map_of_mem hx) le_rfl
    have := hpaced.elapsed
    omega

/-- Progress lines since the statistics were new or reset last, for any feed times. -/
theorem lines_on_time (hs : Begun c s) (hpos : 0 < c.reportingIntervalSeconds)
    (first : Timestamp × UInt64) (rest : List (Timestamp × UInt64)) :
    OnTime s (min (c.reportingIntervalSeconds.toNat * 10 ^ 9) (2 ^ 64 - 1)) first rest := by
  have hinterval : s.interval.toNat =
      min (c.reportingIntervalSeconds.toNat * 10 ^ 9) (2 ^ 64 - 1) := by
    rw [hs.interval_eq, toNat_intervalOf]
  have hseconds : 0 < c.reportingIntervalSeconds.toNat := UInt64.lt_iff_toNat_lt.1 hpos
  rw [← hinterval]
  exact hs.onTime (by omega) first rest

/-- Statistics that report every second. -/
def everySecond : StatisticsConfig :=
  { StatisticsConfig.aggregate with reportingIntervalSeconds := 1 }

/-- A clock that runs backwards and then jumps by more than two seconds. -/
def jumpingClock : List (Timestamp × UInt64) :=
  [(⟨4000000000⟩, 10), (⟨6000000000⟩, 20), (⟨6999999999⟩, 30), (⟨9500000000⟩, 40)]

theorem lines_on_time_jumpingClock :
    ∃ s, make everySecond = .ok s ∧
      (s.sampleAll ((⟨5000000000⟩, 5) :: jumpingClock)).2.map Line.time =
        [⟨6000000000⟩, ⟨9500000000⟩] ∧
      OnTime s 1000000000 (⟨5000000000⟩, 5) jumpingClock := by
  have hinterval : min (everySecond.reportingIntervalSeconds.toNat * 10 ^ 9) (2 ^ 64 - 1) =
      1000000000 := by decide
  refine ⟨_, rfl, ?_, ?_⟩
  · decide +kernel
  · rw [← hinterval]
    exact lines_on_time (.new rfl) (by decide) _ _

end FeedStatistics
end TopOfBook
