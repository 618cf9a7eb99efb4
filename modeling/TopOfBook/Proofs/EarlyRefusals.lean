import Mathlib.Data.List.Permutation
import TopOfBook.Proofs.Runs

/-! What an event leaves behind that is refused before it changes anything. All faults of orders
are found that early, on whichever way a message takes to them. Such a refusal shows in the mark
of the book, which is opened for it if need be, and nowhere else. -/

namespace TopOfBook

/-- A refusal by an instrument that was corrupted before, or for a fault of the orders: one that
is unknown, there already, too small, for no shares, or for another instrument. -/
def Refusal.IsEarly (r : Refusal) : Prop :=
  ∀ fault, r.fault? = some fault → fault.isOfLevel = false

namespace Store

variable {rules : Rules} {s s' : Store} {e : Event} {refusal : Refusal} {i : Instrument}

/-- The store with the book of a refused event marked, and nothing else done. -/
def marked (s : Store) : Refusal → Store
  | .corrupted .. => s
  | .integrity i _ _ fault => s.set i ((s.book i).markCorrupted fault) s.orders

theorem orders_marked (s : Store) (r : Refusal) : (s.marked r).orders = s.orders := by
  cases r <;> rfl

theorem onSide_marked (s : Store) (r : Refusal) (i : Instrument) (side : Side) :
    ((s.marked r).book i).onSide side = (s.book i).onSide side := by
  cases r with
  | corrupted => rfl
  | integrity j _ _ fault =>
    rw [marked, book_set]
    split
    · rw [Book.onSide_markCorrupted, ‹i = j›]
    · rfl

theorem lastInside_marked (s : Store) (r : Refusal) (i : Instrument) :
    ((s.marked r).book i).lastInside = (s.book i).lastInside := by
  cases r with
  | corrupted => rfl
  | integrity j _ _ fault =>
    rw [marked, book_set]
    split
    · rw [Book.markCorrupted, ‹i = j›]
    · rfl

/-- An early refusal does nothing but mark the book. -/
theorem Moves.eq_marked (h : Moves rules s e s' (.error refusal)) (hearly : refusal.IsEarly) :
    s' = s.marked refusal := by
  cases h with
  | rejected => rfl
  | failed i d fault _ _ hdesk =>
    rw [hdesk.eq_of_fault (hearly fault rfl)]
    rfl

/-- Only an open book is marked, that of the instrument of the event. -/
theorem Moves.open_of_integrity {sequence offset : UInt64} {fault : BookFault}
    (h : Moves rules s e s' (.error (.integrity i sequence offset fault))) :
    e.instrument? = some i ∧ (s.book i).corruption = none := by
  cases h with
  | failed _ d _ hi hopen => exact ⟨hi, Book.isCorrupted_eq_false_iff.1 hopen⟩

end Store

/-- An event that is refused by a corrupted instrument, or for a fault of the orders, leaves all
live orders, all levels and all insides published last as they were. After a refusal by a
corrupted instrument the books are the same ones. After a fault the book of the event's own
instrument, which was open or is opened empty, carries the fault, and the others are the same. -/
theorem run_early_refusal {c : EngineConfig} {d : Dispatcher} (hd : Dispatcher.make c = .ok d)
    (calls : List Call) (e : Event) (latency : UInt64) {refusal : Refusal}
    (ho : ((d.run calls).1.process e latency).2.outcome = .error refusal)
    (hearly : refusal.IsEarly) :
    let before := (d.run calls).1.store
    let after := ((d.run calls).1.process e latency).1.store
    after.orders = before.orders ∧
    (∀ i, (∀ side, (after.book i).onSide side = (before.book i).onSide side) ∧
      (after.book i).lastInside = (before.book i).lastInside) ∧
    match refusal with
    | .corrupted .. => ∀ j, after.book? j = before.book? j
    | .integrity i _ _ fault =>
      e.instrument? = some i ∧ (before.book i).corruption = none ∧
        ∀ j, after.book? j =
          if j = i then some { before.book i with corruption := some fault }
          else before.book? j := by
  have hs := Dispatcher.sound_run_of_make hd calls
  have hmoves := Dispatcher.process_moves hs e latency
  rw [ho] at hmoves
  dsimp only
  rw [hmoves.eq_marked hearly]
  refine ⟨Store.orders_marked _ _, fun i => ⟨fun side => Store.onSide_marked _ _ i side,
    Store.lastInside_marked _ _ i⟩, ?_⟩
  cases refusal with
  | corrupted => exact fun _ => rfl
  | integrity i sequence offset fault =>
    obtain ⟨hi, hopen⟩ := hmoves.open_of_integrity
    refine ⟨hi, hopen, fun j => ?_⟩
    rw [Store.marked, Store.book?_set, Book.markCorrupted, hopen]
    rfl

/-- A bid on an instrument. -/
def oneBid : List Call := [.process ⟨default, .addOrder ⟨1, ⟨1⟩, .buy, ⟨10⟩, ⟨5⟩⟩⟩ 0]

/-- Shares of the bid are cancelled on an instrument that it is not for. -/
def elsewhere : Event := ⟨default, .orderCancel ⟨2⟩ 1 ⟨3⟩⟩

theorem run_early_refusal_elsewhere :
    ∃ d, Dispatcher.make .standard = .ok d ∧
      let before := (d.run oneBid).1.store
      let after := ((d.run oneBid).1.process elsewhere 0).1.store
      ((d.run oneBid).1.process elsewhere 0).2.outcome =
        .error (.integrity ⟨2⟩ 0 0 (.instrumentMismatch 1 ⟨1⟩ ⟨2⟩)) ∧
      before.book? ⟨2⟩ = none ∧ after.orders.find? 1 = some ⟨1, ⟨1⟩, .buy, ⟨10⟩, ⟨5⟩⟩ ∧
      after.book? ⟨2⟩ =
        some { Book.empty ⟨2⟩ with corruption := some (.instrumentMismatch 1 ⟨1⟩ ⟨2⟩) } := by
  obtain ⟨d, hd⟩ : ∃ d, Dispatcher.make .standard = .ok d := ⟨_, rfl⟩
  have hstore : (d.run oneBid).1.store = (Store.empty.run ⟨.eventPrice, false⟩ oneBid).1 :=
    (Dispatcher.run_of_make hd oneBid).1
  have hprocess : ((d.run oneBid).1.process elsewhere 0).2.outcome =
      ((Store.empty.run ⟨.eventPrice, false⟩ oneBid).1.apply ⟨.eventPrice, false⟩ elsewhere).2 :=
    (Dispatcher.process_of_make hd oneBid elsewhere 0).2
  have hrefused : ((d.run oneBid).1.process elsewhere 0).2.outcome =
      .error (.integrity ⟨2⟩ 0 0 (.instrumentMismatch 1 ⟨1⟩ ⟨2⟩)) := by
    rw [hprocess]
    cbv
  have hearly : (Refusal.integrity ⟨2⟩ 0 0 (.instrumentMismatch 1 ⟨1⟩ ⟨2⟩)).IsEarly := by
    rintro _ ⟨⟩
    rfl
  obtain ⟨horders, -, -, -, hbooks⟩ := run_early_refusal hd oneBid elsewhere 0 hrefused hearly
  have hunseen : (d.run oneBid).1.store.book? ⟨2⟩ = none := by
    rw [hstore]
    cbv
  refine ⟨d, hd, hrefused, hunseen, ?_, ?_⟩
  · rw [horders, hstore]
    cbv
  · rw [hbooks, if_pos rfl, Store.book, hunseen]
    rfl

end TopOfBook
