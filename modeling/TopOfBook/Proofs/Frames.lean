import Mathlib.Data.List.Permutation
import TopOfBook.Proofs.Isolation

/-! An event reaches no instrument but its own. The live orders of all instruments share one table,
but an order is looked at before anything is changed, and one that rests on another instrument is
only refused. So whatever becomes of an event, the books and the live orders of all other
instruments stay as they were, and with them those of an instrument that no call is for. -/

namespace TopOfBook

namespace Store

variable {s t u : Store} {i j : Instrument}

/-- Two stores have the same book of an instrument, or both none, and under every number the same
live order of it. -/
structure SameOn (j : Instrument) (s t : Store) : Prop where
  book : t.book? j = s.book? j
  orders : ∀ id o, o.instrument = j → (t.orders.find? id = some o ↔ s.orders.find? id = some o)

theorem SameOn.refl (j : Instrument) (s : Store) : SameOn j s s := ⟨rfl, fun _ _ _ => .rfl⟩

theorem SameOn.trans (h : SameOn j s t) (h' : SameOn j t u) : SameOn j s u where
  book := h'.book.trans h.book
  orders id o ho := (h'.orders id o ho).trans (h.orders id o ho)

/-- Stores that are the same once all other instruments are dropped. -/
theorem SameOn.of_restrict
    (h : t.restrict (fun k => decide (k = j)) = s.restrict fun k => decide (k = j)) :
    SameOn j s t where
  book := by
    have hbook := congrArg (fun s : Store => s.book? j) h
    simpa only [book?_restrict, decide_true, if_true] using hbook
  orders id o ho := by
    have hfind := congrArg (fun s : Store => s.orders.find? id = some o) h
    simpa only [orders_restrict, OrderTable.find?_restrict, Option.filter_eq_some_iff, ho,
      decide_true, and_true, eq_iff_iff] using hfind

/-- A call leaves every instrument that it is not for. -/
theorem Sound.sameOn_call (hs : s.Sound) (rules : Rules) {c : Call}
    (hj : c.instrument? ≠ some j) : SameOn j s (s.call rules c).1 := by
  refine .of_restrict (call_restrict_of_drop hs rules fun i hi => decide_eq_false ?_)
  rintro rfl
  exact hj hi

/-- So do any number of calls. -/
theorem Sound.sameOn_run (hs : s.Sound) (rules : Rules) {calls : List Call}
    (hj : ∀ c ∈ calls, c.instrument? ≠ some j) : SameOn j s (s.run rules calls).1 := by
  induction calls generalizing s with
  | nil => exact .refl j s
  | cons c rest ih =>
    rw [List.forall_mem_cons] at hj
    exact (hs.sameOn_call rules hj.1).trans (ih (hs.call rules c) hj.2)

end Store

/-- Whatever was called before, and whatever becomes of an event, it changes no book and no live
order of an instrument other than its own, and none at all when it is not understood. Neither do
any calls that are all for other instruments. The instrument of every live order has a book. -/
theorem run_touches_own_instrument {c : EngineConfig} {d : Dispatcher}
    (hd : Dispatcher.make c = .ok d) (calls : List Call) :
    let before := (d.run calls).1
    (∀ e latency i, e.instrument? = some i → ∀ j, j ≠ i →
      Store.SameOn j before.store (before.process e latency).1.store) ∧
    (∀ header code latency,
      (before.process ⟨header, .unknown code⟩ latency).1.store = before.store) ∧
    (∀ j later, (∀ c ∈ later, c.instrument? ≠ some j) →
      Store.SameOn j before.store (before.run later).1.store) ∧
    ∀ id o, before.store.orders.find? id = some o →
      (before.store.book? o.instrument).isSome := by
  obtain ⟨hstore, -, -⟩ := Dispatcher.run_of_make hd calls
  have hs : (d.run calls).1.store.Sound := hstore ▸ Store.sound_empty.run c.rules calls
  refine ⟨fun e latency i hi j hj => ?_, fun header code latency => rfl, fun j later hlater => ?_,
    hs.opened⟩
  · refine hs.sameOn_call (d.run calls).1.rules (c := .process e latency) ?_
    rw [Call.instrument?, hi]
    exact fun h => hj (Option.some.inj h).symm
  · rw [(Dispatcher.run_eq _ later).1]
    exact hs.sameOn_run _ hlater

/-- A bid on the first instrument. -/
def restingBid : List Call := [.process ⟨default, .addOrder ⟨1, ⟨1⟩, .buy, ⟨100⟩, ⟨10⟩⟩⟩ 0]

/-- Is for the second instrument, but names the bid on the first one. -/
def foreignReplace : Event := ⟨default, .orderReplace ⟨2⟩ 1 1 ⟨101⟩ ⟨5⟩⟩

/-- The bid stays, and the second instrument alone is corrupted. -/
theorem run_touches_own_instrument_foreignReplace :
    ∃ d, Dispatcher.make .standard = .ok d ∧
      let before := (d.run restingBid).1
      (before.process foreignReplace 0).2.outcome =
        .error (.integrity ⟨2⟩ 0 0 (.instrumentMismatch 1 ⟨1⟩ ⟨2⟩)) ∧
      Store.SameOn ⟨1⟩ before.store (before.process foreignReplace 0).1.store ∧
      Store.SameOn ⟨1⟩ before.store (before.run [.process foreignReplace 0, .reset ⟨2⟩]).1.store ∧
      (before.store.book? ⟨1⟩).isSome := by
  obtain ⟨d, hd⟩ : ∃ d, Dispatcher.make .standard = .ok d := ⟨_, rfl⟩
  have hstore : (d.run restingBid).1.store =
      (Store.empty.run ⟨.eventPrice, false⟩ restingBid).1 :=
    (Dispatcher.run_of_make hd restingBid).1
  have hprocess : ((d.run restingBid).1.process foreignReplace 0).2.outcome =
      ((Store.empty.run ⟨.eventPrice, false⟩ restingBid).1.apply ⟨.eventPrice, false⟩
        foreignReplace).2 :=
    (Dispatcher.process_of_make hd restingBid foreignReplace 0).2
  have hrefused : ((d.run restingBid).1.process foreignReplace 0).2.outcome =
      .error (.integrity ⟨2⟩ 0 0 (.instrumentMismatch 1 ⟨1⟩ ⟨2⟩)) := by
    rw [hprocess]
    cbv
  have hlive : (d.run restingBid).1.store.orders.find? 1 =
      some ⟨1, ⟨1⟩, .buy, ⟨100⟩, ⟨10⟩⟩ := by
    rw [hstore]
    cbv
  obtain ⟨hevent, -, hlater, hopened⟩ := run_touches_own_instrument hd restingBid
  refine ⟨d, hd, hrefused, hevent foreignReplace 0 ⟨2⟩ rfl ⟨1⟩ (by decide), hlater ⟨1⟩ _ ?_,
    hopened 1 _ hlive⟩
  decide

end TopOfBook
