import TopOfBook.Engine.Workers
import TopOfBook.Proofs.Contents
import TopOfBook.Proofs.Isolation

/-! Dispatchers that share the instruments between them, each with the calls for its own ones,
know together what one dispatcher with all calls knows. Its store is cut up by instrument, its
records by entry, and the reports of two disjoint parts merge to the report of both. -/

namespace TopOfBook

/-! ### Lists that are cut in two -/

section Lists

variable {α : Type} {p q : α → Bool}

theorem filter_append_filter_perm (hpq : ∀ x, p x = true → q x = false) (l : List α) :
    (l.filter p ++ l.filter q).Perm (l.filter fun x => p x || q x) := by
  have hsplit := List.filter_append_perm p (l.filter fun x => p x || q x)
  rw [List.filter_filter, List.filter_filter] at hsplit
  have hp : (l.filter fun x => p x && (p x || q x)) = l.filter p :=
    List.filter_congr fun x _ => by cases p x <;> rfl
  have hq : (l.filter fun x => !p x && (p x || q x)) = l.filter q :=
    List.filter_congr fun x _ => by
      cases hp : p x
      · rfl
      · rw [hpq x hp]
        rfl
  rwa [hp, hq] at hsplit

theorem length_filter_or (hpq : ∀ x, p x = true → q x = false) (l : List α) :
    (l.filter p).length + (l.filter q).length = (l.filter fun x => p x || q x).length := by
  rw [← List.length_append]
  exact (filter_append_filter_perm hpq l).length_eq

end Lists

/-- Corrupted instruments of two parts, put together in order. -/
theorem Report.mergeCorrupted_filter {l : List Instrument} (hl : Ascends l)
    (p q : Instrument → Bool) :
    mergeCorrupted (l.filter p) (l.filter q) = l.filter fun i => p i || q i := by
  refine (ascends_mergeCorrupted _ _).ext (hl.sublist List.filter_sublist) fun i => ?_
  simp only [mem_mergeCorrupted, List.mem_filter, Bool.or_eq_true, and_or_left]

/-! ### Stores that are cut up -/

namespace Store

variable {s : Store} {keep p q : Instrument → Bool}

theorem size_orders_restrict (s : Store) (keep : Instrument → Bool) :
    (s.restrict keep).orders.size =
      (s.orders.toList.filter fun o => keep o.instrument).length := by
  rw [orders_restrict, ← OrderTable.toList_restrict, OrderTable.toList, List.length_map,
    Std.ExtTreeMap.length_toList, OrderTable.size]

theorem size_books_restrict (s : Store) (keep : Instrument → Bool) :
    (s.restrict keep).books.size = (s.books.keys.filter keep).length := by
  rw [restrict, ← Std.ExtTreeMap.keys_filter_key, Std.ExtTreeMap.length_keys]

theorem ascends_corrupted (s : Store) : Report.Ascends s.corrupted :=
  s.corrupted_pairwise.imp fun h => (Std.compare_eq_lt (a := Instrument.id _)).1 h

theorem corrupted_restrict (s : Store) (keep : Instrument → Bool) :
    (s.restrict keep).corrupted = s.corrupted.filter keep := by
  rw [corrupted, corrupted, instruments, instruments, restrict, Std.ExtTreeMap.keys_filter_key,
    List.filter_filter, List.filter_filter]
  refine List.filter_congr fun i _ => ?_
  cases hk : keep i with
  | true => rw [← restrict, book_restrict hk, Bool.and_comm]
  | false => rw [Bool.and_false, Bool.false_and]

end Store

/-! ### Runs that are cut up -/

/-- The worker that serves a call among so many. -/
def Call.shard (shards : Nat) (c : Call) : Nat :=
  (c.instrument?.bind fun i => i.worker? shards).getD 0

theorem Call.shard_eq {shards : Nat} (hshards : 0 < shards) {c : Call} {i : Instrument}
    (hi : c.instrument? = some i) : c.shard shards = i.id.toNat % shards := by
  rw [shard, hi, Option.bind_some, Instrument.worker?, if_neg (Nat.ne_of_gt hshards),
    Option.getD_some]

theorem Call.shard_lt {shards : Nat} (hshards : 0 < shards) (c : Call) :
    c.shard shards < shards := by
  cases hi : c.instrument? with
  | none =>
    rw [shard, hi]
    exact hshards
  | some i =>
    rw [shard_eq hshards hi]
    exact Nat.mod_lt _ hshards

/-- Nothing has been called yet. -/
structure Dispatcher.Fresh (d : Dispatcher) : Prop where
  store : d.store = .empty
  counters : d.counters = .zero
  latency : ∃ binning, d.statistics.latency = .empty binning
  depths : ∀ depths, d.depths = some depths → ∃ binning, depths.depths = .empty binning
  byInstrument : ∀ s, d.instrumentStatistics = some s → s.byInstrument = ∅

theorem Dispatcher.fresh_of_make {c : EngineConfig} {d : Dispatcher} (h : make c = .ok d) :
    d.Fresh := by
  obtain ⟨_, statistics, depths, -, hstatistics, hdepths, rfl⟩ := make_eq_ok h
  refine ⟨rfl, rfl, ⟨_, (FeedStatistics.holds_of_make hstatistics).latency⟩, ?_,
    fun s hs => (instrumentStatistics_of_make h hs).2⟩
  rintro depths rfl
  exact DepthStatistics.eq_empty_of_make (whenEnabled_eq_some hdepths)

/-- Two reports agree on all but the interarrival times, the rates and the clocks of the feed. -/
structure Report.Agrees (a b : Report) : Prop where
  counters : a.counters = b.counters
  liveOrders : a.liveOrders = b.liveOrders
  books : a.books = b.books
  corrupted : a.corrupted = b.corrupted
  byInstrument : a.byInstrument = b.byInstrument
  latency : a.statistics.latency = b.statistics.latency
  depths : a.depths = b.depths

theorem Report.Agrees.refl (a : Report) : a.Agrees a := ⟨rfl, rfl, rfl, rfl, rfl, rfl, rfl⟩

namespace Dispatcher

variable {d : Dispatcher} {calls : List Call} {shards : Nat} {p q : Nat → Bool}

/-- A run of the calls that some workers serve. -/
def part (d : Dispatcher) (calls : List Call) (shards : Nat) (p : Nat → Bool) :
    Dispatcher × List Entry :=
  d.run (calls.filter fun c => p (c.shard shards))

section Cut

variable (hd : d.Fresh) (hshards : 0 < shards)
  (ha : KeepApart (fun i => i.id.toNat % shards) calls)
include hd hshards ha

theorem part_eq (p : Nat → Bool) :
    (d.part calls shards p).1.store =
        (d.run calls).1.store.restrict (fun i => p (i.id.toNat % shards)) ∧
      (d.part calls shards p).2 =
        (d.run calls).2.filter fun a => p (a.call.shard shards) := by
  have howned : Store.empty.Owned (fun i => p (i.id.toNat % shards)) calls := by
    intro id o hlive
    simp [Store.empty] at hlive
  have hkept : ∀ (c : Call) i, c.instrument? = some i →
      p (c.shard shards) = p (i.id.toNat % shards) :=
    fun c i hi => congrArg p (Call.shard_eq hshards hi)
  have hrun := Store.run_restrict Store.sound_empty d.rules hkept howned (ha.comp p)
  rw [Store.restrict_empty] at hrun
  obtain ⟨hstore, -, hentries⟩ := d.run_eq calls
  obtain ⟨hstore', -, hentries'⟩ := d.run_eq (calls.filter fun c => p (c.shard shards))
  rw [hd.store] at hstore hentries hstore' hentries'
  rw [hrun] at hstore' hentries'
  rw [part, hstore', hentries', hstore, hentries]
  exact ⟨rfl, rfl⟩

theorem part_byInstrument (p : Nat → Bool) :
    (d.part calls shards p).1.report.byInstrument =
      (d.run calls).1.report.byInstrument.filter fun i _ => p (i.id.toNat % shards) := by
  have hentries := (part_eq hd hshards ha p).2
  have hkept : ∀ (a : Entry) i, a.call.instrument? = some i →
      p (a.call.shard shards) = p (i.id.toNat % shards) :=
    fun a i hi => congrArg p (Call.shard_eq hshards hi)
  unfold part at hentries ⊢
  simp only [report, run_instrumentStatistics, hentries]
  cases hs : d.instrumentStatistics with
  | none => exact (OrderedMap.filter_empty _).symm
  | some s =>
    have hempty : s.restrict (fun i => p (i.id.toNat % shards)) = s := by
      obtain ⟨prototype, byInstrument⟩ := s
      obtain rfl : byInstrument = ∅ := hd.byInstrument _ hs
      exact congrArg (InstrumentStatistics.mk prototype) (OrderedMap.filter_empty _)
    have hfold := InstrumentStatistics.foldl_enter_restrict (l := (d.run calls).2) hkept s
    rw [hempty] at hfold
    simp only [Option.map_some, Option.elim_some, hfold]
    rfl

theorem merge_part_counters (hpq : ∀ k, p k = true → q k = false) :
    (d.part calls shards p).1.counters.merge (d.part calls shards q).1.counters =
      (d.part calls shards fun k => p k || q k).1.counters := by
  have hp := (part_eq hd hshards ha p).2
  have hq := (part_eq hd hshards ha q).2
  have hor := (part_eq hd hshards ha fun k => p k || q k).2
  have hmerge := (Counters.merges_enter.foldl_filter_or
    (fun a : Entry => hpq (a.call.shard shards)) (d.run calls).2 (a := .zero) (b := .zero)
    trivial).2
  rw [Counters.merge_zero_zero] at hmerge
  unfold part at hp hq hor ⊢
  rw [run_counters, run_counters, run_counters, hp, hq, hor, hd.counters]
  exact hmerge

theorem merge_part_latency (hpq : ∀ k, p k = true → q k = false) :
    (d.part calls shards p).1.statistics.latency.plus
        (d.part calls shards q).1.statistics.latency =
      (d.part calls shards fun k => p k || q k).1.statistics.latency := by
  have hp := (part_eq hd hshards ha p).2
  have hq := (part_eq hd hshards ha q).2
  have hor := (part_eq hd hshards ha fun k => p k || q k).2
  obtain ⟨binning, hfresh⟩ := hd.latency
  have hmerge := (DurationHistogram.merges_enter.foldl_filter_or
    (fun a : Entry => hpq (a.call.shard shards)) (d.run calls).2
    (a := .empty binning) (b := .empty binning) rfl).2
  rw [Histogram.empty_plus_empty] at hmerge
  unfold part at hp hq hor ⊢
  rw [run_latency, run_latency, run_latency, hp, hq, hor, hfresh]
  exact hmerge

theorem merge_part_depths (hpq : ∀ k, p k = true → q k = false) :
    Report.mergeDepths (d.part calls shards p).1.depths (d.part calls shards q).1.depths =
      .ok (d.part calls shards fun k => p k || q k).1.depths := by
  have hp := (part_eq hd hshards ha p).2
  have hq := (part_eq hd hshards ha q).2
  have hor := (part_eq hd hshards ha fun k => p k || q k).2
  unfold part at hp hq hor ⊢
  rw [run_depths, run_depths, run_depths, hp, hq, hor]
  cases hdepths : d.depths with
  | none => rfl
  | some fresh =>
    obtain ⟨binning, hfresh⟩ := hd.depths fresh hdepths
    obtain rfl : fresh = ⟨.empty binning⟩ := congrArg DepthStatistics.mk hfresh
    obtain ⟨hbins, hmerge⟩ := DepthStatistics.merges_enter.foldl_filter_or
      (fun a : Entry => hpq (a.call.shard shards)) (d.run calls).2
      (a := ⟨.empty binning⟩) (b := ⟨.empty binning⟩) rfl
    have hplus : DepthStatistics.plus ⟨.empty binning⟩ ⟨.empty binning⟩ = ⟨.empty binning⟩ :=
      congrArg DepthStatistics.mk (Histogram.empty_plus_empty binning)
    rw [hplus] at hmerge
    simp only [Option.map_some, Report.mergeDepths, DepthStatistics.merge_eq_plus hbins, hmerge]
    rfl

theorem merge_part_byInstrument (hpq : ∀ k, p k = true → q k = false) :
    Report.mergeInstruments (d.part calls shards p).1.report.byInstrument
        (d.part calls shards q).1.report.byInstrument.toList =
      ((d.part calls shards fun k => p k || q k).1.report.byInstrument, .ok ()) := by
  have hpart (p : Nat → Bool) (i : Instrument) :
      (d.part calls shards p).1.report.byInstrument[i]? =
        if p (i.id.toNat % shards) then (d.run calls).1.report.byInstrument[i]? else none := by
    rw [part_byInstrument hd hshards ha, Std.ExtTreeMap.getElem?_filter']
    cases p (i.id.toNat % shards) <;>
      cases (d.run calls).1.report.byInstrument[i]? <;> simp [Option.filter]
  have hnone : ∀ i, ¬ (d.part calls shards p).1.report.Clashes
      (d.part calls shards q).1.report i := by
    rintro i ⟨s, t, hs, ht, -⟩
    rw [hpart, Option.ite_none_right_eq_some] at hs ht
    rw [hpq _ hs.1] at ht
    exact Bool.false_ne_true ht.1
  obtain ⟨sum, hsum, hget⟩ := Report.mergeInstruments_of_sameBins hnone
  rw [hsum]
  congr 1
  apply Std.ExtTreeMap.ext_getElem?
  intro i
  rw [hget, hpart, hpart, hpart]
  cases hp : p (i.id.toNat % shards) with
  | true => simp [hpq _ hp]
  | false => simp

/-- The reports of two parts without a worker in common add up to the report of both. -/
theorem merge_part (hpq : ∀ k, p k = true → q k = false) {r : Report}
    (hr : r.Agrees (d.part calls shards p).1.report)
    (hbins : FeedStatistics.SameBins r.statistics d.statistics) :
    ∃ sum, r.merge (d.part calls shards q).1.report = (sum, .ok ()) ∧
      sum.Agrees (d.part calls shards fun k => p k || q k).1.report ∧
      FeedStatistics.SameBins sum.statistics d.statistics := by
  have hbins' : FeedStatistics.SameBins r.statistics
      (d.part calls shards q).1.report.statistics :=
    hbins.trans (run_sameBins d _).symm
  have hpi : ∀ i : Instrument, p (i.id.toNat % shards) = true → q (i.id.toNat % shards) = false :=
    fun i => hpq _
  have hstore := fun p => (part_eq hd hshards ha p).1
  rw [Report.merge, FeedStatistics.merge_eq_plus hbins', hr.byInstrument,
    merge_part_byInstrument hd hshards ha hpq]
  simp only
  rw [hr.depths]
  rw [show Report.mergeDepths (d.part calls shards p).1.report.depths
    (d.part calls shards q).1.report.depths = _ from merge_part_depths hd hshards ha hpq]
  refine ⟨_, rfl, ?_, (FeedStatistics.sameBins_plus _ _).trans hbins⟩
  constructor
  case counters =>
    rw [hr.counters]
    exact merge_part_counters hd hshards ha hpq
  case liveOrders =>
    rw [hr.liveOrders]
    simp only [report, hstore, Store.size_orders_restrict]
    exact length_filter_or (fun o : Order => hpi o.instrument) _
  case books =>
    rw [hr.books]
    simp only [report, hstore, Store.size_books_restrict]
    exact length_filter_or hpi _
  case corrupted =>
    rw [hr.corrupted]
    simp only [report, hstore, Store.corrupted_restrict]
    exact Report.mergeCorrupted_filter (Store.ascends_corrupted _) _ _
  case byInstrument => rfl
  case latency =>
    exact (congrArg (Histogram.plus · (d.part calls shards q).1.statistics.latency)
      hr.latency).trans (merge_part_latency hd hshards ha hpq)
  case depths => rfl

end Cut

end Dispatcher
end TopOfBook
