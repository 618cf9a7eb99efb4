import Mathlib.Data.List.Permutation
import TopOfBook.Proofs.Results
import TopOfBook.Proofs.Schedules

/-! Workers that share the instruments agree with a single dispatcher. Each worker runs its part
of the events, the report of the whole is put together from those of the parts, and for an
instrument only its own worker hands anything out. -/

namespace TopOfBook

/-- The calls that process events one after the other. -/
def feed (latency : UInt64) (es : List Event) : List Call := es.map fun e => .process e latency

/-- What an entry hands out. -/
def Entry.output? (a : Entry) : Option WorkerOutput :=
  match a.answer with
  | .outcome o => WorkerOutput.ofOutcome? o
  | .dropped _ => none

/-! ### One dispatcher -/

namespace Dispatcher

/-- All that a dispatcher hands out for events. -/
def outputs (d : Dispatcher) (latency : UInt64) (es : List Event) : List WorkerOutput :=
  (d.processAll latency es).2.filterMap fun step => WorkerOutput.ofOutcome? step.outcome

theorem processAll_eq_run (d : Dispatcher) (latency : UInt64) (es : List Event) :
    (d.processAll latency es).1 = (d.run (feed latency es)).1 ∧
      d.outputs latency es = (d.run (feed latency es)).2.filterMap Entry.output? := by
  induction es generalizing d with
  | nil => exact ⟨rfl, rfl⟩
  | cons e rest ih =>
    obtain ⟨ih₁, ih₂⟩ := ih (d.process e latency).1
    refine ⟨ih₁, ?_⟩
    unfold outputs at ih₂ ⊢
    simp only [processAll, feed, List.map_cons, run, List.filterMap_cons]
    rw [ih₂]
    rfl

/-- An entry hands out something about its own instrument only. -/
theorem instrument_of_run {d : Dispatcher} {calls : List Call} {a : Entry}
    (ha : a ∈ (d.run calls).2) {o : WorkerOutput} (ho : a.output? = some o) :
    a.call.instrument? = some o.instrument := by
  induction calls generalizing d with
  | nil => cases ha
  | cons c rest ih =>
    rcases List.mem_cons.1 ha with rfl | ha
    · cases c with
      | process e latency => exact Store.instrument_of_output ho
      | reset i => cases ho
    · exact ih ha

end Dispatcher

/-! ### Workers -/

theorem EngineConfig.pos_of_validate (c : EngineConfig) {valid : Unit}
    (h : c.validate = .ok valid) : 0 < c.shards.toNat ∧ 0 < c.channelCapacity.toNat := by
  obtain ⟨_, -, h⟩ := exists_of_bind_eq_ok h
  obtain ⟨_, -, h⟩ := exists_of_bind_eq_ok h
  dsimp only at h
  split at h
  · cases h
  rename_i hshards
  split at h
  · cases h
  rename_i hcapacity
  rw [not_or] at hshards
  exact ⟨Nat.pos_of_ne_zero fun hzero => hshards.1 (UInt64.toNat_inj.1 hzero),
    Nat.pos_of_ne_zero fun hzero => hcapacity (UInt64.toNat_inj.1 hzero)⟩

namespace Worker

/-- A worker runs its dispatcher. -/
theorem takeAll_eq_run (w : Worker) (latency : UInt64) (es : List Event) :
    (w.takeAll latency es).dispatcher = (w.dispatcher.run (feed latency es)).1 ∧
      (w.takeAll latency es).outputs.toList =
        w.outputs.toList ++ (w.dispatcher.run (feed latency es)).2.filterMap Entry.output? := by
  induction es generalizing w with
  | nil => exact ⟨rfl, (List.append_nil _).symm⟩
  | cons e rest ih =>
    obtain ⟨ih₁, ih₂⟩ := ih (w.take e latency)
    refine ⟨ih₁, ?_⟩
    rw [outputs_take] at ih₂
    rw [show w.takeAll latency (e :: rest) = (w.take e latency).takeAll latency rest from rfl, ih₂,
      List.append_assoc]
    congr 1
    have hentry : (w.dispatcher.entry (.process e latency)).output? = w.output? e latency := rfl
    simp only [feed, List.map_cons, Dispatcher.run, List.filterMap_cons, hentry]
    cases w.output? e latency <;> rfl

end Worker

namespace Workers

/-- Adds the report of a worker to those before it. -/
def addReport (merged : Option Report) (w : Worker) : Except HistogramFault (Option Report) :=
  match merged with
  | none => .ok (some w.dispatcher.report)
  | some m =>
    match m.merge w.dispatcher.report with
    | (sum, .ok ()) => .ok (some sum)
    | (_, .error fault) => .error fault

theorem finish_eq (w : Workers) : w.finish = w.all.toList.foldlM addReport none := rfl

/-- New workers are all alike, and there is at least one, with room in its queue. -/
theorem start_eq_ok {c : EngineConfig} {w : Workers} {d : Dispatcher} (hw : start c = .ok w)
    (hd : Dispatcher.make c = .ok d) :
    w = ⟨.replicate c.shards.toNat ⟨d, 0, none, #[]⟩⟩ ∧ 0 < c.shards.toNat ∧
      0 < c.channelCapacity.toNat := by
  unfold start at hw
  cases hvalid : c.validate with
  | error fault =>
    rw [hvalid] at hw
    cases hw
  | ok valid =>
    rw [hvalid, hd] at hw
    exact ⟨(Except.ok.inj hw).symm, c.pos_of_validate hvalid⟩

section Parts

variable {d : Dispatcher} {calls : List Call} {shards : Nat} (hd : d.Fresh) (hshards : 0 < shards)
  (ha : KeepApart (fun i => i.id.toNat % shards) calls)
include hd hshards ha

/-- The reports of the first workers and of those that follow add up. -/
theorem foldlM_addReport (ws : List Worker) (n : Nat) {r : Report}
    (hws : ∀ j w, ws[j]? = some w →
      w.dispatcher = (d.part calls shards fun k => k == n + j).1)
    (hr : r.Agrees (d.part calls shards fun k => decide (k < n)).1.report)
    (hbins : FeedStatistics.SameBins r.statistics d.statistics) :
    ∃ sum, ws.foldlM addReport (some r) = .ok (some sum) ∧
      sum.Agrees (d.part calls shards fun k => decide (k < n + ws.length)).1.report := by
  induction ws generalizing n r with
  | nil => exact ⟨r, rfl, hr⟩
  | cons w ws ih =>
    have hw := hws 0 w rfl
    rw [Nat.add_zero] at hw
    have hdisjoint : ∀ k, decide (k < n) = true → (k == n) = false := by
      intro k hk
      rw [beq_eq_false_iff_ne]
      exact Nat.ne_of_lt (of_decide_eq_true hk)
    obtain ⟨next, hmerge, hnext, hsame⟩ :=
      Dispatcher.merge_part hd hshards ha hdisjoint hr hbins
    have hunion : (fun k => decide (k < n) || k == n) = fun k => decide (k < n + 1) := by
      funext k
      rw [Bool.eq_iff_iff]
      simp
      omega
    rw [hunion] at hnext
    obtain ⟨sum, hsum, hagrees⟩ := ih (n + 1) (fun j w hj => by
      rw [Nat.add_assoc, Nat.add_comm 1]
      exact hws (j + 1) w hj) hnext hsame
    refine ⟨sum, ?_, ?_⟩
    · rw [List.foldlM_cons]
      simp only [addReport, hw, hmerge]
      exact hsum
    · rwa [List.length_cons, Nat.add_comm ws.length, ← Nat.add_assoc]

/-- When each worker has run its part, the reports add up to that of the whole run. -/
theorem finish_of_parts (w : Workers) (hsize : w.size = shards)
    (hws : ∀ k worker, w.all[k]? = some worker →
      worker.dispatcher = (d.part calls shards fun j => j == k).1) :
    ∃ r, w.finish = .ok (some r) ∧ r.Agrees (d.run calls).1.report := by
  have hlength : w.all.toList.length = shards := hsize
  have hget : ∀ k, w.all.toList[k]? = w.all[k]? := fun k => Array.getElem?_toList
  rw [finish_eq]
  cases hall : w.all.toList with
  | nil =>
    rw [hall] at hlength
    exact absurd hlength (Nat.ne_of_lt hshards)
  | cons first ws =>
    rw [hall] at hlength hget
    have hfirst := hws 0 first (hget 0).symm
    have hone : (fun k => k == 0) = fun k => decide (k < 1) := by
      funext k
      rw [Bool.eq_iff_iff]
      simp
    rw [hone] at hfirst
    have hrest : ∀ j worker, ws[j]? = some worker →
        worker.dispatcher = (d.part calls shards fun k => k == 1 + j).1 := by
      intro j worker hj
      rw [Nat.add_comm]
      exact hws (j + 1) worker ((hget (j + 1)).symm.trans hj)
    have hagrees : first.dispatcher.report.Agrees
        (d.part calls shards fun k => decide (k < 1)).1.report := hfirst ▸ .refl _
    have hbins : FeedStatistics.SameBins first.dispatcher.report.statistics d.statistics :=
      hfirst ▸ Dispatcher.run_sameBins d _
    obtain ⟨r, hr, hagrees⟩ := foldlM_addReport hd hshards ha ws 1 hrest hagrees hbins
    refine ⟨r, hr, ?_⟩
    -- every call has a worker, so the parts of all workers make up the run
    have hwhole : (calls.filter fun c => decide (c.shard shards < 1 + ws.length)) = calls := by
      rw [List.filter_eq_self]
      intro c _
      rw [Nat.add_comm, ← List.length_cons (a := first), hlength]
      exact decide_eq_true (Call.shard_lt hshards c)
    rw [Dispatcher.part, hwhole] at hagrees
    exact hagrees

end Parts

end Workers

/-- What a part of a run hands out for an instrument that it serves is what the whole run
hands out for it. -/
theorem Dispatcher.outputs_part {d : Dispatcher} {calls : List Call} {shards : Nat}
    (hd : d.Fresh) (hshards : 0 < shards)
    (ha : KeepApart (fun i => i.id.toNat % shards) calls) (i : Instrument) :
    ((d.part calls shards fun k => k == i.id.toNat % shards).2.filterMap Entry.output?).filter
        (fun o => o.instrument = i) =
      ((d.run calls).2.filterMap Entry.output?).filter fun o => o.instrument = i := by
  rw [(part_eq hd hshards ha _).2, List.filterMap_filter, List.filter_filterMap,
    List.filter_filterMap]
  refine List.filterMap_congr fun a ha => ?_
  cases ho : a.output? with
  | none => simp
  | some o =>
    by_cases hoi : o.instrument = i
    · have hi := instrument_of_run ha ho
      rw [hoi] at hi
      simp [Call.shard_eq hshards hi]
    · split <;> simp [Option.filter, hoi]

theorem feed_filter_route (latency : UInt64) (es : List Event) (shards k : Nat) :
    feed latency (es.filter fun e => Workers.route shards e = k) =
      (feed latency es).filter fun c => c.shard shards == k := by
  rw [feed, feed, List.filter_map]
  rfl

/-- When all is done, each worker has run its part. -/
theorem Engine.InOrder.worker_of_finished {d : Dispatcher} {shards : Nat} {latency : UInt64}
    {es : List Event} {s : Engine}
    (hs : InOrder ⟨.replicate shards ⟨d, 0, none, #[]⟩⟩ latency es s) (hf : s.Finished) (k : Nat) :
    s.workers.all[k]? =
      if k < shards then
        some ((Worker.mk d 0 none #[]).takeAll latency
          (es.filter fun e => Workers.route shards e = k))
      else none := by
  have hsize : Workers.size ⟨.replicate shards ⟨d, 0, none, #[]⟩⟩ = shards := Array.size_replicate
  obtain ⟨done, hworker, hevents⟩ := hs.events k
  simp only [hf.held, hf.queues, hf.pending, hsize, Option.toList_none, List.filter_nil,
    List.append_nil] at hevents
  rw [hworker, hevents, Array.getElem?_replicate]
  split <;> rfl

/-- Workers that share the instruments, in whatever order they move, can always finish. When they
have, what was sent about an instrument is what a single dispatcher hands out for it, and the
reports of the workers add up to one that agrees with that of the dispatcher. -/
theorem sharded_agrees_with_single {c : EngineConfig} {workers : Workers} {d : Dispatcher}
    (hworkers : Workers.start c = .ok workers) (hd : Dispatcher.make c = .ok d)
    (latency : UInt64) {es : List Event}
    (ha : KeepApart (fun i => i.id.toNat % c.shards.toNat) (feed latency es)) {s : Engine}
    (hs : Engine.Steps c.channelCapacity.toNat latency (.start workers es) s) :
    (∃ s', Engine.Steps c.channelCapacity.toNat latency s s' ∧ s'.Finished) ∧
    (s.Finished →
      (∀ i, s.sent.filter (fun o => o.instrument = i) =
        (d.outputs latency es).filter fun o => o.instrument = i) ∧
      ∃ r, s.workers.finish = .ok (some r) ∧ r.Agrees (d.processAll latency es).1.report) := by
  obtain ⟨rfl, hshards, hcapacity⟩ := Workers.start_eq_ok hworkers hd
  have hfresh := Dispatcher.fresh_of_make hd
  have hsize : Workers.size ⟨.replicate c.shards.toNat ⟨d, 0, none, #[]⟩⟩ = c.shards.toNat :=
    Array.size_replicate
  have hpos : 0 < Workers.size ⟨.replicate c.shards.toNat ⟨d, 0, none, #[]⟩⟩ :=
    hshards.trans_eq hsize.symm
  have horder : Engine.InOrder ⟨.replicate c.shards.toNat ⟨d, 0, none, #[]⟩⟩ latency es s := by
    refine hs.inOrder hpos (Engine.inOrder_start fun w hw => ?_)
    rw [(Array.mem_replicate.1 hw).2]
  refine ⟨Engine.exists_finished hcapacity hpos horder, fun hf => ?_⟩
  obtain ⟨hwhole, hhanded⟩ := d.processAll_eq_run latency es
  have hpart : ∀ k worker, s.workers.all[k]? = some worker →
      worker.dispatcher = (d.part (feed latency es) c.shards.toNat fun j => j == k).1 ∧
      worker.outputs.toList =
        (d.part (feed latency es) c.shards.toNat fun j => j == k).2.filterMap Entry.output? := by
    intro k worker hk
    rw [horder.worker_of_finished hf] at hk
    split at hk
    · obtain rfl := Option.some.inj hk
      obtain ⟨hdispatcher, houtputs⟩ := (Worker.mk d 0 none #[]).takeAll_eq_run latency
        (es.filter fun e => Workers.route c.shards.toNat e = k)
      rw [feed_filter_route] at hdispatcher houtputs
      exact ⟨hdispatcher, houtputs⟩
    · cases hk
  constructor
  · intro i
    have hlt : i.id.toNat % c.shards.toNat < c.shards.toNat := Nat.mod_lt _ hshards
    have hsent := horder.sent (i.id.toNat % c.shards.toNat)
    have hworker := horder.worker_of_finished hf (i.id.toNat % c.shards.toNat)
    rw [if_pos hlt] at hworker
    rw [hworker, Option.elim_some, (hpart _ _ hworker).2, hsize] at hsent
    rw [hhanded, ← Dispatcher.outputs_part hfresh hshards ha i, ← hsent, List.filter_filter]
    refine List.filter_congr fun o _ => ?_
    by_cases ho : o.instrument = i
    · simp [ho]
    · simp [ho]
  · rw [hwhole]
    exact Workers.finish_of_parts hfresh hshards ha s.workers (horder.size.trans hsize)
      fun k worker hk => (hpart k worker hk).1

/-- Two instruments with a worker each; an order of the first one comes and goes. -/
def twoInstruments : List Event :=
  [⟨default, .addOrder ⟨1, ⟨1⟩, .buy, ⟨10⟩, ⟨5⟩⟩⟩,
    ⟨default, .addOrder ⟨2, ⟨2⟩, .sell, ⟨11⟩, ⟨7⟩⟩⟩,
    ⟨default, .orderDelete ⟨1⟩ 1⟩]

theorem sharded_agrees_with_single_twoInstruments :
    ∃ workers d s r, Workers.start { EngineConfig.standard with shards := 2 } = .ok workers ∧
      Dispatcher.make { EngineConfig.standard with shards := 2 } = .ok d ∧
      Engine.Steps 16384 0 (.start workers twoInstruments) s ∧ s.Finished ∧
      s.sent.filter (fun o => o.instrument = ⟨1⟩) =
        [.update ⟨⟨1⟩, default, ⟨some ⟨⟨10⟩, ⟨5⟩⟩, none⟩⟩, .update ⟨⟨1⟩, default, .empty⟩] ∧
      s.workers.finish = .ok (some r) ∧ r.Agrees (d.processAll 0 twoInstruments).1.report := by
  obtain ⟨workers, hworkers⟩ : ∃ workers,
      Workers.start { EngineConfig.standard with shards := 2 } = .ok workers := ⟨_, rfl⟩
  obtain ⟨d, hd⟩ : ∃ d, Dispatcher.make { EngineConfig.standard with shards := 2 } = .ok d :=
    ⟨_, rfl⟩
  have ha : KeepApart (fun i => i.id.toNat % 2) (feed 0 twoInstruments) := by decide
  obtain ⟨s, hs, hf⟩ := (sharded_agrees_with_single hworkers hd 0 ha .refl).1
  obtain ⟨hsent, r, hr, hagrees⟩ := (sharded_agrees_with_single hworkers hd 0 ha hs).2 hf
  refine ⟨workers, d, s, r, hworkers, hd, hs, hf, (hsent ⟨1⟩).trans ?_, hr, hagrees⟩
  have hrun : (d.run (feed 0 twoInstruments)).2 =
      (Store.empty.run ⟨.eventPrice, false⟩ (feed 0 twoInstruments)).2 :=
    (Dispatcher.run_of_make hd (feed 0 twoInstruments)).2.2
  rw [(d.processAll_eq_run 0 twoInstruments).2, hrun]
  cbv

end TopOfBook
