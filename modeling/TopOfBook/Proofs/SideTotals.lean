import Mathlib.Data.List.Permutation
import Std.Data.TreeMap
import TopOfBook.Proofs.Gauges

/-! Shares are conserved on each side of a book. An execution at a price of its own takes its
shares off another level than the one where the order rests, so single levels drift away from
the live orders. But it takes off a level of the same side as many shares as it takes off the
order, and so the two totals of a side stay equal, at whatever prices executions are booked. -/

namespace TopOfBook

/-- All the shares of a side. -/
def Gauge.whole (side : Side) : Gauge where
  covers s _ := s = side
  shares b := (b.onSide side).total
  empty i := by cases side <;> rfl
  seen h := by rw [h]
  add {b c s _ _ _} h := by
    rw [Book.total_add h]
    simp only [eq_comm (a := s)]
  reduce {b c s _ _ _} h := by
    rw [← Book.total_reduce h side]
    simp only [eq_comm (a := s)]

/-- The levels of each side hold as many shares as the live orders of that side. -/
def Desk.EvenSides (d : Desk) : Prop :=
  ∀ side, (d.book.onSide side).total = d.orders.sideTotal d.book.instrument side

/-- A side is covered at all its prices, so it does not matter where executions are booked. -/
theorem Desk.evenSides_lasting (mode : ExecutionPriceMode) : Desk.Lasting mode Desk.EvenSides :=
  .all fun side => (Gauge.whole side).lasting fun _ _ _ _ _ _ _ => Iff.rfl

/-- As long as the book of an instrument is not corrupted, the levels of each of its sides hold
together as many shares as the live orders of that side, wherever executions were booked. -/
theorem run_conserves_shares {c : EngineConfig} {d : Dispatcher}
    (hd : Dispatcher.make c = .ok d) (calls : List Call) (i : Instrument)
    (hi : ((d.run calls).1.store.book i).isCorrupted = false) (side : Side) :
    (((d.run calls).1.store.book i).onSide side).total =
      (d.run calls).1.store.orders.sideTotal i side := by
  rw [(Dispatcher.run_of_make hd calls).1] at hi ⊢
  have hlasting := Desk.evenSides_lasting c.rules.executionPriceMode
  have heven := (Store.keeps_empty hlasting).run hlasting Store.sound_empty calls i hi side
  rwa [(Store.sound_empty.run c.rules calls).book i] at heven

/-- Two bids at two prices. The first one is partly executed at the price of the second one, so
each of the two levels is three shares off. -/
def executedElsewhere : List Call :=
  [.process ⟨default, .addOrder ⟨1, ⟨1⟩, .buy, ⟨10⟩, ⟨5⟩⟩⟩ 0,
    .process ⟨default, .addOrder ⟨2, ⟨1⟩, .buy, ⟨11⟩, ⟨7⟩⟩⟩ 0,
    .process ⟨default, .orderExecutedWithPrice ⟨1⟩ 1 ⟨3⟩ 0 ⟨11⟩ true⟩ 0]

theorem run_conserves_shares_executedElsewhere :
    ∃ d, Dispatcher.make .standard = .ok d ∧
      ((d.run executedElsewhere).1.store.book ⟨1⟩).isCorrupted = false ∧
      (((d.run executedElsewhere).1.store.book ⟨1⟩).onSide .buy).levels =
        [⟨⟨11⟩, ⟨4⟩⟩, ⟨⟨10⟩, ⟨5⟩⟩] ∧
      (((d.run executedElsewhere).1.store.book ⟨1⟩).onSide .buy).total =
        (d.run executedElsewhere).1.store.orders.sideTotal ⟨1⟩ .buy := by
  obtain ⟨d, hd⟩ : ∃ d, Dispatcher.make .standard = .ok d := ⟨_, rfl⟩
  have hstore : (d.run executedElsewhere).1.store =
      (Store.empty.run ⟨.eventPrice, false⟩ executedElsewhere).1 :=
    (Dispatcher.run_of_make hd executedElsewhere).1
  have hi : ((d.run executedElsewhere).1.store.book ⟨1⟩).isCorrupted = false := by
    rw [hstore]
    cbv
  refine ⟨d, hd, hi, ?_, run_conserves_shares hd executedElsewhere ⟨1⟩ hi .buy⟩
  rw [hstore]
  cbv

end TopOfBook
