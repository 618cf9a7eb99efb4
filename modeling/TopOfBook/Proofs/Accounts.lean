import Mathlib.Algebra.BigOperators.Group.List.Basic
import TopOfBook.Proofs.Parts
import TopOfBook.Proofs.Resets
import TopOfBook.Proofs.Sharding

/-! The counters and the statistics of a dispatcher are accounts of the results of its run: of the
events that were processed, each with its outcome. They are entered at different points of an
event, under different conditions on its kind and its outcome, and agree nevertheless. -/

namespace TopOfBook

/-- The event that a call processes. -/
def Call.event? : Call → Option Event
  | process e _ => some e
  | reset _ => none

/-- The event that was processed, with its outcome. -/
def Entry.result? (a : Entry) : Option (Event × Outcome) :=
  match a.call, a.answer with
  | .process e _, .outcome o => some (e, o)
  | _, _ => none

/-- Only an event that is not understood is for no instrument. -/
theorem Event.instrument?_eq_none_iff {e : Event} : e.instrument? = none ↔ e.kind = .unknown := by
  rcases e with ⟨header, message⟩
  cases message <;> simp [Event.instrument?, Message.instrument?, Event.kind, Message.kind]

theorem Event.isMutation_iff {e : Event} :
    e.isMutation = true ↔ e.kind ≠ .directory ∧ e.kind ≠ .unknown := by
  rcases e with ⟨header, message⟩
  cases message <;> simp [Event.isMutation, Message.isMutation, Event.kind, Message.kind]

theorem Kind.index_injective {k k' : Kind} (h : k.index = k'.index) : k = k' := by
  revert h
  cases k <;> cases k' <;> decide

theorem Histogram.samples_add {B T : Type} [Binning B T] [LT T] [DecidableLT T]
    (h : Histogram B T) (x : T) : (h.add x).samples = h.samples + 1 := rfl

/-! ### Counters -/

namespace Counters

theorem count_recordEvent (c : Counters) (kind k : Kind) :
    (c.recordEvent kind).count k = c.count k + if kind = k then 1 else 0 := by
  unfold count recordEvent
  by_cases h : kind = k
  · subst h
    simp
  · have hne : (kind.index : Nat) ≠ k.index := fun he => h (Kind.index_injective (Fin.ext he))
    simp [hne, h]

theorem sum_byKind_recordEvent (c : Counters) (kind : Kind) :
    (c.recordEvent kind).byKind.sum = c.byKind.sum + 1 := by
  have hsplit := List.sum_take_add_sum_drop c.byKind.toList kind.index
  rw [List.drop_eq_getElem_cons (by simp), List.sum_cons] at hsplit
  rw [← Vector.sum_toList, ← Vector.sum_toList, ← hsplit, recordEvent, Vector.toList_set,
    List.sum_set, if_pos (by simp)]
  simp only [Fin.getElem_fin, Vector.getElem_toList]
  omega

/-- The counters are those of events with these outcomes. -/
structure Account (c : Counters) (results : List (Event × Outcome)) : Prop where
  events : c.events = results.length
  count : ∀ kind, c.count kind = results.countP fun r => r.1.kind = kind
  sum_byKind : c.byKind.sum = results.length
  insideChanges : c.insideChanges = results.countP fun r => r.2 matches .ok (some _)
  integrityErrors : c.integrityErrors = results.countP fun r => r.2 matches .error (.integrity ..)
  rejected : c.rejected = results.countP fun r => r.2 matches .error (.corrupted ..)

theorem account_zero : zero.Account [] where
  events := rfl
  count kind := by cases kind <;> rfl
  sum_byKind := rfl
  insideChanges := rfl
  integrityErrors := rfl
  rejected := rfl

theorem recordOutcome_eq (c : Counters) (o : Outcome) :
    c.recordOutcome o =
      ⟨c.events, c.byKind, c.insideChanges + if o matches .ok (some _) then 1 else 0,
        c.integrityErrors + if o matches .error (.integrity ..) then 1 else 0,
        c.rejected + if o matches .error (.corrupted ..) then 1 else 0⟩ := by
  rcases o with (refusal | refusal) | (none | update) <;> rfl

theorem Account.record {c : Counters} {results : List (Event × Outcome)} (h : c.Account results)
    (e : Event) (o : Outcome) :
    ((c.recordEvent e.kind).recordOutcome o).Account (results ++ [(e, o)]) := by
  rw [recordOutcome_eq]
  constructor
  case events => rw [List.length_append, List.length_singleton, ← h.events]; rfl
  case count =>
    intro kind
    rw [List.countP_append, List.countP_singleton, ← h.count]
    simp only [decide_eq_true_eq]
    exact count_recordEvent c e.kind kind
  case sum_byKind =>
    rw [List.length_append, List.length_singleton, ← h.sum_byKind]
    exact sum_byKind_recordEvent c e.kind
  case insideChanges => rw [List.countP_append, List.countP_singleton, ← h.insideChanges]; rfl
  case integrityErrors => rw [List.countP_append, List.countP_singleton, ← h.integrityErrors]; rfl
  case rejected => rw [List.countP_append, List.countP_singleton, ← h.rejected]; rfl

end Counters

/-! ### Statistics -/

namespace FeedStatistics

/-- The statistics are those of so many events. The first one has no distance to an earlier one. -/
structure Account (s : FeedStatistics) (events : Nat) : Prop where
  latency : s.latency.samples = events
  interarrival : s.interarrival.samples = events - 1
  lastFeed : s.lastFeed = none ↔ events = 0

variable {s : FeedStatistics} {events : Nat}

theorem account_of_make {c : StatisticsConfig} (h : make c = .ok s) : s.Account 0 := by
  have hholds := holds_of_make h
  obtain ⟨_, _, _, _, _, -, -, -, -, -, rfl⟩ := make_eq_ok h
  exact ⟨congrArg Histogram.samples hholds.latency, congrArg Histogram.samples hholds.interarrival,
    ⟨fun _ => rfl, fun _ => rfl⟩⟩

theorem Account.sample (h : s.Account events) (t : Timestamp) (nanos : UInt64) :
    (s.sample t nanos).1.Account (events + 1) := by
  have hcount : (s.count t nanos).Account (events + 1) := by
    refine ⟨congrArg (· + 1) h.latency, ?_, by simp [count]⟩
    have hinterarrival := h.interarrival
    have hlastFeed := h.lastFeed
    unfold count
    cases hlast : s.lastFeed with
    | none =>
      simp only [hlast]
      rw [hinterarrival, hlastFeed.1 hlast]
    | some last =>
      have hpos : events ≠ 0 := fun hzero => by simp [hlastFeed.2 hzero] at hlast
      simp only [hlast, Histogram.samples_add]
      omega
  unfold FeedStatistics.sample report
  dsimp only
  split <;> exact ⟨hcount.latency, hcount.interarrival, hcount.lastFeed⟩

end FeedStatistics

namespace InstrumentStatistics

/-- The statistics are those of these events, each for its own instrument. -/
structure Account (s : InstrumentStatistics) (events : List Event) : Prop where
  prototype : s.prototype.Account 0
  entry : ∀ i, i ∈ s.byInstrument ↔ ∃ e ∈ events, e.instrument? = some i
  sampled : ∀ i (t : FeedStatistics), s.byInstrument[i]? = some t →
    t.Account (events.countP fun e => e.instrument? = some i)
  total : (s.byInstrument.toList.map fun x => x.2.events).sum +
    events.countP (fun e => e.kind = .unknown) = events.length

variable {s : InstrumentStatistics} {events : List Event} {e : Event}

/-- An instrument without an entry is like one with the prototype, which has no samples. -/
theorem Account.getD (h : s.Account events) (i : Instrument) :
    (s.byInstrument.getD i s.prototype).Account
      (events.countP fun e => e.instrument? = some i) := by
  rw [Std.ExtTreeMap.getD_eq_getD_getElem?]
  cases hi : s.byInstrument[i]? with
  | some t => exact h.sampled i t hi
  | none =>
    have hnone : i ∉ s.byInstrument := by simp [Std.ExtTreeMap.mem_iff_isSome_getElem?, hi]
    rw [h.entry] at hnone
    have hzero : (events.countP fun e => e.instrument? = some i) = 0 :=
      List.countP_eq_zero.2 fun e he hei => hnone ⟨e, he, of_decide_eq_true hei⟩
    rw [hzero]
    exact h.prototype

theorem Account.sample (h : s.Account events) {i : Instrument} (hi : e.instrument? = some i)
    (latency : UInt64) : (s.sample i e.header.fed latency).1.Account (events ++ [e]) := by
  have hnext := (h.getD i).sample e.header.fed latency
  constructor
  case prototype => exact h.prototype
  case entry =>
    intro j
    simp only [InstrumentStatistics.sample, Std.ExtTreeMap.mem_insert, h.entry,
      Std.LawfulEqCmp.compare_eq_iff_eq, List.mem_append, List.mem_singleton, or_and_right,
      exists_or, exists_eq_left, hi, Option.some.injEq]
    exact or_comm
  case sampled =>
    intro j t
    simp only [InstrumentStatistics.sample, Std.ExtTreeMap.getElem?_insert,
      Std.LawfulEqCmp.compare_eq_iff_eq, List.countP_append, List.countP_singleton, hi,
      Option.some.injEq, decide_eq_true_eq]
    by_cases hij : i = j
    · subst hij
      rw [if_pos rfl, if_pos rfl]
      rintro ⟨rfl⟩
      exact hnext
    · rw [if_neg hij, if_neg hij]
      exact h.sampled j t
  case total =>
    have htotal := h.total
    have hknown : e.kind ≠ .unknown := fun hunknown => by
      simp [Event.instrument?_eq_none_iff.2 hunknown] at hi
    have hbefore : s.byInstrument[i]?.elim 0 FeedStatistics.events =
        events.countP fun e => e.instrument? = some i := by
      rw [← (h.getD i).latency, Std.ExtTreeMap.getD_eq_getD_getElem?]
      cases s.byInstrument[i]? with
      | none => exact h.prototype.latency.symm
      | some t => rfl
    rw [OrderedMap.sum_erase _ i fun _ s => FeedStatistics.events s, hbefore] at htotal
    simp only [InstrumentStatistics.sample]
    rw [OrderedMap.sum_insert _ _ _ fun _ s => FeedStatistics.events s, FeedStatistics.events,
      hnext.latency, List.countP_append, List.countP_singleton, decide_eq_false hknown,
      List.length_append, List.length_singleton]
    simp only [Bool.false_eq_true, if_false]
    omega

/-- An event that is not understood is for no instrument. -/
theorem Account.skip (h : s.Account events) (hi : e.instrument? = none) :
    s.Account (events ++ [e]) where
  prototype := h.prototype
  entry i := by simp [h.entry, hi]
  sampled i t ht := by simpa [List.countP_append, hi] using h.sampled i t ht
  total := by
    have htotal := h.total
    rw [List.countP_append, List.countP_singleton, List.length_append, List.length_singleton,
      decide_eq_true (Event.instrument?_eq_none_iff.1 hi), if_pos rfl]
    omega

end InstrumentStatistics

/-! ### Dispatchers -/

namespace Dispatcher

/-- What a dispatcher counts and samples is the account of these results. -/
structure Account (d : Dispatcher) (results : List (Event × Outcome)) : Prop where
  counters : d.counters.Account results
  statistics : d.statistics.Account results.length
  depths : ∀ depths, d.depths = some depths → depths.depths.samples =
    results.countP fun r => r.2 matches .ok _ ∧ r.1.kind ≠ .directory ∧ r.1.kind ≠ .unknown
  instrumentStatistics : ∀ s, d.instrumentStatistics = some s → s.Account (results.map Prod.fst)

variable {d : Dispatcher} {results : List (Event × Outcome)}

theorem account_of_make {c : EngineConfig} (h : make c = .ok d) : d.Account [] := by
  have hfresh := fresh_of_make h
  obtain ⟨_, _, _, -, hstatistics, -, hd⟩ := make_eq_ok h
  constructor
  case counters => exact hfresh.counters ▸ Counters.account_zero
  case statistics => exact hd ▸ FeedStatistics.account_of_make hstatistics
  case depths =>
    intro depths hdepths
    obtain ⟨binning, hempty⟩ := hfresh.depths depths hdepths
    exact congrArg Histogram.samples hempty
  case instrumentStatistics =>
    intro s hs
    obtain ⟨hprototype, hnone⟩ := instrumentStatistics_of_make h hs
    refine ⟨FeedStatistics.account_of_make hprototype, ?_, ?_, ?_⟩ <;> simp only [hnone]
    · simp
    · simp
    · rfl

/-- An event that goes through leaves a book for its instrument, whose depth is sampled when it may
have changed. -/
theorem samples_sampleDepth (rules : Rules) (s : Store) (e : Event) (depths : DepthStatistics) :
    (sampleDepth (s.apply rules e).1 e (s.apply rules e).2 depths).depths.samples =
      depths.depths.samples +
        if (s.apply rules e).2 matches .ok _ ∧ e.kind ≠ .directory ∧ e.kind ≠ .unknown then 1
        else 0 := by
  simp only [← Event.isMutation_iff]
  unfold sampleDepth
  cases (s.apply rules e).2 with
  | error refusal => simp
  | ok update =>
    cases hi : e.instrument? with
    | none =>
      have hunknown := Event.instrument?_eq_none_iff.1 hi
      have hidle : ¬ e.isMutation = true := fun h => (Event.isMutation_iff.1 h).2 hunknown
      simp [hidle]
    | some i =>
      simp only [Option.bind_some, Store.book?_apply rules s hi, true_and]
      split <;> rfl

theorem Account.process (h : d.Account results) (e : Event) (latency : UInt64) :
    (d.process e latency).1.Account (results ++ [(e, (d.process e latency).2.outcome)]) := by
  constructor
  case counters => exact h.counters.record e _
  case statistics =>
    rw [List.length_append, List.length_singleton]
    exact h.statistics.sample _ _
  case depths =>
    intro depths hdepths
    obtain ⟨before, hbefore, rfl⟩ := Option.map_eq_some_iff.1
      (show d.depths.map (sampleDepth (d.process e latency).1.store e
        (d.process e latency).2.outcome) = some depths from hdepths)
    rw [List.countP_append, List.countP_singleton, ← h.depths before hbefore]
    simp only [decide_eq_true_eq]
    exact samples_sampleDepth d.rules d.store e before
  case instrumentStatistics =>
    intro s hs
    rw [List.map_append, List.map_singleton]
    change (sampleInstrument e latency d.instrumentStatistics).1 = some s at hs
    cases hbefore : d.instrumentStatistics with
    | none => simp [sampleInstrument, hbefore] at hs
    | some before =>
      have hb := h.instrumentStatistics before hbefore
      cases hi : e.instrument? with
      | none =>
        obtain rfl : before = s := by simpa [sampleInstrument, hbefore, hi] using hs
        exact hb.skip hi
      | some i =>
        obtain rfl : (before.sample i e.header.fed latency).1 = s := by
          simpa [sampleInstrument, hbefore, hi] using hs
        exact hb.sample hi latency

theorem Account.call (h : d.Account results) (c : Call) :
    (d.call c).1.Account (results ++ (d.entry c).result?.toList) := by
  cases c with
  | process e latency => exact h.process e latency
  | reset i =>
    rw [show (d.entry (.reset i)).result? = none from rfl, Option.toList_none, List.append_nil]
    exact ⟨h.counters, h.statistics, h.depths, h.instrumentStatistics⟩

/-- A run keeps the accounts. -/
theorem Account.run (h : d.Account results) (calls : List Call) :
    (d.run calls).1.Account (results ++ (d.run calls).2.filterMap Entry.result?) := by
  induction calls generalizing d results with
  | nil => exact (List.append_nil results).symm ▸ h
  | cons c rest ih =>
    have hrest := ih (h.call c)
    rw [List.append_assoc] at hrest
    rw [Dispatcher.run, List.filterMap_cons]
    cases hc : (d.entry c).result? with
    | none => simpa [hc] using hrest
    | some r => simpa [hc] using hrest

/-- A run of events gives their results. -/
theorem map_fst_result? (d : Dispatcher) (calls : List Call) :
    ((d.run calls).2.filterMap Entry.result?).map Prod.fst = calls.filterMap Call.event? := by
  induction calls generalizing d with
  | nil => rfl
  | cons c rest ih =>
    rw [run, List.filterMap_cons, List.filterMap_cons]
    cases c with
    | process e latency => exact congrArg (e :: ·) (ih _)
    | reset i => exact ih _

theorem isSome_of_whenEnabled {α : Type} {enabled : Bool} {build : Except BinningFault α}
    {part : Option α} (h : whenEnabled enabled build = .ok part) : part.isSome = enabled := by
  unfold whenEnabled at h
  cases enabled with
  | false =>
    cases h
    rfl
  | true =>
    cases build with
    | error fault => cases h
    | ok x =>
      cases h
      rfl

/-- A part that is enabled is there from the first call to the last. -/
theorem isSome_run_of_make {c : EngineConfig} (h : make c = .ok d) (calls : List Call) :
    (d.run calls).1.depths.isSome = c.enableDepthStatistics ∧
      (d.run calls).1.instrumentStatistics.isSome = c.enableInstrumentStatistics := by
  rw [run_depths, run_instrumentStatistics, Option.isSome_map, Option.isSome_map]
  obtain ⟨_, _, _, hinstruments, -, hdepths, rfl⟩ := make_eq_ok h
  exact ⟨isSome_of_whenEnabled hdepths, isSome_of_whenEnabled hinstruments⟩

end Dispatcher

/-! ### Callbacks -/

/-- Hands an output to the callback for it. -/
def WorkerOutput.handTo {σ : Type} (onUpdate : σ → InsideUpdate → σ) (onRefusal : σ → Refusal → σ)
    (kept : σ) : WorkerOutput → σ
  | update u => onUpdate kept u
  | refusal r => onRefusal kept r

namespace Dispatcher

section Callbacks

variable {σ : Type} (onUpdate : σ → InsideUpdate → σ) (onRefusal : σ → Refusal → σ)

/-- The calls that process events one after the other, each with its latency. -/
def batch (timed : List (Event × UInt64)) : List Call := timed.map fun x => .process x.1 x.2

/-- Events with callbacks are a run of theirs. The callbacks take what it hands out, in order. -/
theorem processEach_eq_run (d : Dispatcher) (kept : σ) (timed : List (Event × UInt64)) :
    d.processEach onUpdate onRefusal kept timed =
      ((d.run (batch timed)).1,
        ((d.run (batch timed)).2.filterMap Entry.output?).foldl
          (WorkerOutput.handTo onUpdate onRefusal) kept,
        timed.length) := by
  induction timed generalizing d kept with
  | nil => rfl
  | cons x rest ih =>
    obtain ⟨e, latency⟩ := x
    have hentry : (d.entry (.process e latency)).output? =
        WorkerOutput.ofOutcome? (d.process e latency).2.outcome := rfl
    simp only [processEach, ih, batch, List.map_cons, run, List.filterMap_cons, hentry,
      List.length_cons]
    rcases (d.process e latency).2.outcome with refusal | (none | update) <;> rfl

/-- With one latency for all events, they end like events without callbacks, and what those lead
to is handed out. -/
theorem processEach_eq_processAll (d : Dispatcher) (kept : σ) (latency : UInt64)
    (es : List Event) :
    d.processEach onUpdate onRefusal kept (es.map fun e => (e, latency)) =
      ((d.processAll latency es).1,
        (d.outputs latency es).foldl (WorkerOutput.handTo onUpdate onRefusal) kept, es.length) := by
  have hbatch : batch (es.map fun e => (e, latency)) = feed latency es := List.map_map
  rw [processEach_eq_run, hbatch, (d.processAll_eq_run latency es).1,
    (d.processAll_eq_run latency es).2, List.length_map]

end Callbacks

end Dispatcher

/-- The accounts of a run of a new dispatcher. There is a result for each event processed. The
counters count the results, by kind and by outcome, and the statistics have a sample for each: of
the latency always, of the distance to the event before from the second on, of the depth of the
book where the event went through and may have changed it, and for the instrument of the event
where there is one, whatever the outcome. Events that come with callbacks are more of the run:
they are counted, and what they lead to is handed to the callbacks one by one and in order. Where
all have the same latency, they end like events without callbacks, whose outputs are handed out. -/
theorem run_accounts {c : EngineConfig} {d : Dispatcher} (hd : Dispatcher.make c = .ok d)
    (calls : List Call) :
    let after := (d.run calls).1
    let results := (d.run calls).2.filterMap Entry.result?
    results.map Prod.fst = calls.filterMap Call.event? ∧
    after.Account results ∧
    after.depths.isSome = c.enableDepthStatistics ∧
    after.instrumentStatistics.isSome = c.enableInstrumentStatistics ∧
    ∀ (σ : Type) (onUpdate : σ → InsideUpdate → σ) (onRefusal : σ → Refusal → σ) (kept : σ),
      (∀ timed, after.processEach onUpdate onRefusal kept timed =
        ((d.run (calls ++ Dispatcher.batch timed)).1,
          ((after.run (Dispatcher.batch timed)).2.filterMap Entry.output?).foldl
            (WorkerOutput.handTo onUpdate onRefusal) kept,
          timed.length)) ∧
      ∀ latency es, after.processEach onUpdate onRefusal kept (es.map fun e => (e, latency)) =
        ((after.processAll latency es).1,
          (after.outputs latency es).foldl (WorkerOutput.handTo onUpdate onRefusal) kept,
          es.length) := by
  obtain ⟨hdepths, hinstruments⟩ := Dispatcher.isSome_run_of_make hd calls
  refine ⟨d.map_fst_result? calls, ?_, hdepths, hinstruments, ?_⟩
  · exact (Dispatcher.account_of_make hd).run calls
  · intro σ onUpdate onRefusal kept
    refine ⟨fun timed => ?_, ?_⟩
    · rw [Dispatcher.processEach_eq_run, Dispatcher.run_append]
    · exact Dispatcher.processEach_eq_processAll onUpdate onRefusal (d.run calls).1 kept

/-- A directory entry, an order, an event that is not understood, a cancel of an order that is not
there, an order behind it and, after a reset, one of another instrument. -/
def everyOutcome : List Call :=
  [.process ⟨default, .directory ⟨1⟩ "A"⟩ 5,
    .process ⟨default, .addOrder ⟨1, ⟨1⟩, .buy, ⟨100⟩, ⟨10⟩⟩⟩ 6,
    .process ⟨default, .unknown 90⟩ 7,
    .process ⟨default, .orderCancel ⟨1⟩ 9 ⟨1⟩⟩ 8,
    .process ⟨default, .addOrder ⟨2, ⟨1⟩, .buy, ⟨101⟩, ⟨10⟩⟩⟩ 9,
    .reset ⟨1⟩,
    .process ⟨default, .addOrder ⟨3, ⟨2⟩, .sell, ⟨102⟩, ⟨10⟩⟩⟩ 4]

theorem run_accounts_everyOutcome :
    ∃ d, Dispatcher.make { EngineConfig.standard with
        enableInstrumentStatistics := true, enableDepthStatistics := true } = .ok d ∧
      let after := (d.run everyOutcome).1
      after.counters.events = 6 ∧ after.counters.insideChanges = 2 ∧
      after.counters.integrityErrors = 1 ∧ after.counters.rejected = 1 ∧
      after.statistics.latency.samples = 6 ∧ after.statistics.interarrival.samples = 5 ∧
      (∃ depths, after.depths = some depths ∧ depths.depths.samples = 2) ∧
      ∃ s t, after.instrumentStatistics = some s ∧ s.byInstrument[(⟨1⟩ : Instrument)]? = some t ∧
        t.events = 4 := by
  obtain ⟨d, hd⟩ : ∃ d, Dispatcher.make { EngineConfig.standard with
    enableInstrumentStatistics := true, enableDepthStatistics := true } = .ok d := ⟨_, rfl⟩
  obtain ⟨-, haccount, hdepths, hinstruments, -⟩ := run_accounts hd everyOutcome
  have hrun : (d.run everyOutcome).2 = (Store.empty.run ⟨.eventPrice, false⟩ everyOutcome).2 :=
    (Dispatcher.run_of_make hd everyOutcome).2.2
  obtain ⟨depths, hdepths⟩ := Option.isSome_iff_exists.1 hdepths
  obtain ⟨s, hs⟩ := Option.isSome_iff_exists.1 hinstruments
  rw [hrun] at haccount
  have hinstrument := haccount.instrumentStatistics s hs
  have hentry : (⟨1⟩ : Instrument) ∈ s.byInstrument :=
    (hinstrument.entry ⟨1⟩).2 ⟨⟨default, .directory ⟨1⟩ "A"⟩, List.mem_cons_self, rfl⟩
  obtain ⟨t, ht⟩ := Option.isSome_iff_exists.1 (Std.ExtTreeMap.mem_iff_isSome_getElem?.1 hentry)
  refine ⟨d, hd, haccount.counters.events.trans ?_, haccount.counters.insideChanges.trans ?_,
    haccount.counters.integrityErrors.trans ?_, haccount.counters.rejected.trans ?_,
    haccount.statistics.latency.trans ?_, haccount.statistics.interarrival.trans ?_,
    ⟨depths, hdepths, (haccount.depths depths hdepths).trans ?_⟩,
    s, t, hs, ht, (hinstrument.sampled ⟨1⟩ t ht).latency.trans ?_⟩ <;> cbv

end TopOfBook
