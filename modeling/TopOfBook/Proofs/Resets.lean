import Mathlib.Data.List.Permutation
import Std.Data.TreeMap
import TopOfBook.Proofs.Isolation

/-! What a reset leaves of an instrument: at most an empty book. Nothing can tell an empty book
from none, as the first event opens the book anyway. So whatever happened to an instrument, a
reset puts it back to where it began, even when a fault has left its book and its orders apart. -/

namespace TopOfBook

/-- Whether a call is an event for the instrument. -/
def Call.IsEventFor (i : Instrument) : Call → Prop
  | process e _ => e.instrument? = some i
  | reset _ => False

theorem Call.IsEventFor.instrument?_eq {i : Instrument} {c : Call} (h : c.IsEventFor i) :
    c.instrument? = some i := by
  cases c with
  | process e latency => exact h
  | reset j => cases h

/-! ### Empty books -/

namespace Store

variable {rules : Rules} {s t : Store} {i : Instrument} {e : Event}

/-- The same books and the same orders, where an empty book counts as none. -/
structure Alike (s t : Store) : Prop where
  books : ∀ i, s.book i = t.book i
  orders : s.orders = t.orders

theorem Alike.set (h : s.Alike t) (i : Instrument) (b : Book) (orders : OrderTable) :
    (s.set i b orders).Alike (t.set i b orders) where
  books j := by rw [book_set, book_set, h.books]
  orders := rfl

/-- An event does the same to stores that are alike. -/
theorem Alike.apply (h : s.Alike t) (rules : Rules) (e : Event) :
    (s.apply rules e).1.Alike (t.apply rules e).1 ∧
      (s.apply rules e).2 = (t.apply rules e).2 := by
  unfold Store.apply
  cases e.instrument? with
  | none => exact ⟨h, rfl⟩
  | some i =>
    simp only
    rw [h.books i]
    split
    · exact ⟨h, rfl⟩
    · unfold applyOpen
      rw [h.books i, h.orders]
      cases (Desk.mk (t.book i) t.orders).apply rules.executionPriceMode e.message with
      | mk d r =>
        cases r with
        | error fault => exact ⟨h.set i _ d.orders, rfl⟩
        | ok effect => exact ⟨h.set i _ d.orders, rfl⟩

/-- After an event its instrument has a book. -/
theorem book?_apply (rules : Rules) (s : Store) (hi : e.instrument? = some i) :
    (s.apply rules e).1.book? i = some ((s.apply rules e).1.book i) := by
  have hset (b : Book) (orders : OrderTable) :
      (s.set i b orders).book? i = some ((s.set i b orders).book i) := by
    rw [book?_set, if_pos rfl, book_set, if_pos rfl]
  unfold apply
  rw [hi]
  simp only
  split
  · rename_i hclosed
    -- without a book the instrument would not be corrupted
    unfold book at hclosed ⊢
    cases hb : s.book? i with
    | none =>
      rw [hb] at hclosed
      cases hclosed
    | some b => rfl
  · unfold applyOpen
    cases (Desk.mk (s.book i) s.orders).apply rules.executionPriceMode e.message with
    | mk d r =>
      cases r with
      | error fault => exact hset _ d.orders
      | ok effect => exact hset _ d.orders

theorem Alike.entry (h : s.Alike t) (rules : Rules) {c : Call} (hc : c.IsEventFor i) :
    s.entry rules c = t.entry rules c := by
  cases c with
  | reset j => cases hc
  | process e latency =>
    have hi : e.instrument? = some i := hc
    obtain ⟨hstores, houtcome⟩ := h.apply rules e
    simp only [Store.entry, call, Call.instrument?, hi, Option.bind_some, houtcome, book?_apply,
      hstores.books]

/-- Events for an instrument are answered alike by stores that are alike, and lead to stores that
are. -/
theorem Alike.run (h : s.Alike t) (rules : Rules) {calls : List Call}
    (hcalls : ∀ c ∈ calls, c.IsEventFor i) :
    (s.run rules calls).1.Alike (t.run rules calls).1 ∧
      (s.run rules calls).2 = (t.run rules calls).2 := by
  induction calls generalizing s t with
  | nil => exact ⟨h, rfl⟩
  | cons c rest ih =>
    have hc := hcalls c List.mem_cons_self
    have hnext : (s.call rules c).1.Alike (t.call rules c).1 := by
      cases c with
      | process e latency => exact (h.apply rules e).1
      | reset j => cases hc
    obtain ⟨hstores, hentries⟩ := ih hnext fun c' hc' => hcalls c' (List.mem_cons_of_mem _ hc')
    refine ⟨hstores, ?_⟩
    rw [Store.run, Store.run, h.entry rules hc, hentries]

/-- All that a reset leaves of an instrument is like nothing. -/
theorem Sound.alike_reset (hs : s.Sound) (i : Instrument) :
    ((s.reset i).1.restrict fun j => decide (j = i)).Alike .empty where
  books j := by
    by_cases hj : j = i
    · rw [book_restrict (decide_eq_true hj), hs.book_reset, if_pos hj, hj, Store.book, book?_empty,
        Option.getD_none]
    · rw [Store.book, Store.book, book?_restrict, if_neg (by simp [hj]), book?_empty]
  orders := by
    apply OrderTable.ext_find?
    intro id
    rw [orders_restrict, orders_reset, OrderTable.restrict_restrict, OrderTable.find?_restrict]
    simp [empty]

end Store

/-! ### Runs after a reset -/

namespace Dispatcher

variable {d d' : Dispatcher} {i : Instrument} {calls : List Call}

/-- What stores that are alike show of an instrument. -/
theorem view_of_alike (hrules : d.rules = d'.rules) (h : d.store.Alike d'.store)
    (hcalls : ∀ c ∈ calls, c.IsEventFor i) :
    (d.view calls i).entries = (d'.view calls i).entries ∧
      (d.view calls i).book.getD (.empty i) = (d'.view calls i).book.getD (.empty i) ∧
      (d.view calls i).orders = (d'.view calls i).orders := by
  obtain ⟨hstore, -, hentries⟩ := d.run_eq calls
  obtain ⟨hstore', -, hentries'⟩ := d'.run_eq calls
  obtain ⟨halike, hsame⟩ := h.run d'.rules hcalls
  rw [hrules] at hstore hentries
  simp only [view, hentries, hentries', hsame, hstore, hstore', halike.orders, true_and, and_true]
  exact halike.books i

/-- After a reset, events for the instrument that name no order live on another one are seen as
those of a store without any history. -/
theorem view_resetInstrument (hs : d.store.Sound) (hrules : d.rules = d'.rules)
    (hempty : d'.store = .empty) (hcalls : ∀ c ∈ calls, c.IsEventFor i)
    (howned : ∀ c ∈ calls, ∀ id ∈ c.ids, ∀ o, d.store.orders.find? id = some o →
      o.instrument = i) :
    ((d.resetInstrument i).1.view calls i).entries = (d'.view calls i).entries ∧
      ((d.resetInstrument i).1.view calls i).book.getD (.empty i) =
        (d'.view calls i).book.getD (.empty i) ∧
      ((d.resetInstrument i).1.view calls i).orders = (d'.view calls i).orders := by
  have hown : ∀ c ∈ calls, ∀ j ∈ c.instrument?, j = i := fun c hc j hj =>
    Option.some.inj (hj.symm.trans (hcalls c hc).instrument?_eq)
  have hall : (calls.filter fun c => c.instrument? = some i) = calls :=
    List.filter_eq_self.2 fun c hc => decide_eq_true (hcalls c hc).instrument?_eq
  have hfree : (d.store.reset i).1.Owned (fun j => decide (j = i)) calls := by
    intro id o hlive c hc j hj hid
    rw [Store.orders_reset, OrderTable.find?_restrict, Option.filter_eq_some_iff] at hlive
    rw [hown c hc j hj, howned c hc id hid o hlive.1]
  have happart : KeepApart (fun j => decide (j = i)) calls := by
    intro c hc c' hc' j hj j' hj' _ _ _
    rw [hown c hc j hj, hown c' hc' j' hj']
  have hview := view_restrict (d := (d.resetInstrument i).1) (hs.reset i) hfree happart
  rw [hall] at hview
  rw [← hview]
  exact view_of_alike hrules (hempty ▸ hs.alike_reset i) hcalls

end Dispatcher

/-- A reset gives the number of live orders of its instrument, and of the other instruments it
changes no book and no order. After it, events for the instrument that name no order live on
another one are answered as by a new dispatcher, one by one, and leave the book and the live
orders that they leave there. -/
theorem run_reset_erases {c : EngineConfig} {d : Dispatcher} (hd : Dispatcher.make c = .ok d)
    (calls : List Call) (i : Instrument) :
    let before := (d.run calls).1
    let after := (before.resetInstrument i).1
    (before.resetInstrument i).2 = (before.store.orders.ofInstrument i).length ∧
    (∀ j, j ≠ i → after.store.book? j = before.store.book? j ∧
      after.store.orders.ofInstrument j = before.store.orders.ofInstrument j) ∧
    ∀ events, (∀ c ∈ events, c.IsEventFor i) →
      (∀ c ∈ events, ∀ id ∈ c.ids, ∀ o, before.store.orders.find? id = some o →
        o.instrument = i) →
      ∀ timed, timed.map Call.untimed = events.map Call.untimed →
        (after.view events i).entries = (d.view timed i).entries ∧
        (after.view events i).book.getD (.empty i) = (d.view timed i).book.getD (.empty i) ∧
        (after.view events i).orders = (d.view timed i).orders := by
  obtain ⟨hstore, hrules, -⟩ := Dispatcher.run_of_make hd calls
  obtain ⟨hempty, hrules'⟩ := Dispatcher.store_of_make hd
  have hs : (d.run calls).1.store.Sound := hstore ▸ Store.sound_empty.run c.rules calls
  refine ⟨OrderTable.purge_snd _ i, fun j hj => ⟨?_, ?_⟩, ?_⟩
  · exact (Store.book?_reset _ i j).trans (if_neg hj)
  · exact @OrderTable.ofInstrument_restrict _ (fun k => decide (k ≠ i)) j (decide_eq_true hj)
  · intro events hevents howned timed htimed
    rw [d.view_eq_of_untimed htimed i]
    exact Dispatcher.view_resetInstrument hs (hrules.trans hrules'.symm) hempty hevents howned

/-- Two bids on one instrument and one on another. The first bid is executed at the price of the
second one, so the level of the second one is short when it is to be replaced. The fault leaves
the new order live without shares on any level. -/
def halfReplaced : List Call :=
  [.process ⟨default, .addOrder ⟨1, ⟨1⟩, .buy, ⟨100⟩, ⟨10⟩⟩⟩ 0,
    .process ⟨default, .addOrder ⟨2, ⟨1⟩, .buy, ⟨101⟩, ⟨10⟩⟩⟩ 0,
    .process ⟨default, .addOrder ⟨3, ⟨2⟩, .buy, ⟨50⟩, ⟨7⟩⟩⟩ 0,
    .process ⟨default, .orderExecutedWithPrice ⟨1⟩ 1 ⟨4⟩ 0 ⟨101⟩ true⟩ 0,
    .process ⟨default, .orderReplace ⟨1⟩ 2 9 ⟨103⟩ ⟨5⟩⟩ 0]

/-- Uses the numbers of the orders that were live again, at the same latency each. -/
def rebuilt (latency : UInt64) : List Call :=
  [.process ⟨default, .addOrder ⟨9, ⟨1⟩, .sell, ⟨104⟩, ⟨3⟩⟩⟩ latency,
    .process ⟨default, .addOrder ⟨1, ⟨1⟩, .sell, ⟨105⟩, ⟨2⟩⟩⟩ latency,
    .process ⟨default, .orderDelete ⟨1⟩ 9⟩ latency]

theorem run_reset_erases_halfReplaced :
    ∃ d, Dispatcher.make .standard = .ok d ∧
      let before := (d.run halfReplaced).1
      let after := (before.resetInstrument ⟨1⟩).1
      (before.store.book ⟨1⟩).isCorrupted = true ∧
      (before.resetInstrument ⟨1⟩).2 = (before.store.orders.ofInstrument ⟨1⟩).length ∧
      after.store.orders.ofInstrument ⟨2⟩ = before.store.orders.ofInstrument ⟨2⟩ ∧
      (after.view (rebuilt 3) ⟨1⟩).entries = (d.view (rebuilt 8) ⟨1⟩).entries := by
  obtain ⟨d, hd⟩ : ∃ d, Dispatcher.make .standard = .ok d := ⟨_, rfl⟩
  have hstore : (d.run halfReplaced).1.store =
      (Store.empty.run ⟨.eventPrice, false⟩ halfReplaced).1 :=
    (Dispatcher.run_of_make hd halfReplaced).1
  have hclosed : ((d.run halfReplaced).1.store.book ⟨1⟩).isCorrupted = true := by
    rw [hstore]
    cbv
  have hfirst : (d.run halfReplaced).1.store.orders.find? 1 =
      some ⟨1, ⟨1⟩, .buy, ⟨100⟩, ⟨6⟩⟩ := by
    rw [hstore]
    cbv
  have hnew : (d.run halfReplaced).1.store.orders.find? 9 =
      some ⟨9, ⟨1⟩, .buy, ⟨103⟩, ⟨5⟩⟩ := by
    rw [hstore]
    cbv
  have hevents : ∀ c ∈ rebuilt 3, c.IsEventFor ⟨1⟩ := by
    simp [rebuilt, Call.IsEventFor, Event.instrument?, Message.instrument?]
  have howned : ∀ c ∈ rebuilt 3, ∀ id ∈ c.ids, ∀ o,
      (d.run halfReplaced).1.store.orders.find? id = some o → o.instrument = ⟨1⟩ := by
    simp [rebuilt, Call.ids, Event.ids, Message.ids, hfirst, hnew]
  have hsame : (rebuilt 8).map Call.untimed = (rebuilt 3).map Call.untimed := rfl
  obtain ⟨hdropped, hothers, hrebuilt⟩ := run_reset_erases hd halfReplaced ⟨1⟩
  exact ⟨d, hd, hclosed, hdropped, (hothers ⟨2⟩ (by decide)).2,
    (hrebuilt (rebuilt 3) hevents howned (rebuilt 8) hsame).1⟩

end TopOfBook
