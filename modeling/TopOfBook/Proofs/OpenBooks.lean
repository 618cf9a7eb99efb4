import TopOfBook.Proofs.Runs

/-! What lasts as long as a book is open. A fault may leave the book of an instrument and its live
orders apart, but then the book is corrupted, and a reset empties it together with its orders. So
what an empty book has and what every message that goes through keeps is had by every open book
after any events and resets. -/

namespace TopOfBook

/-- A property of a book and its live orders that lasts while the book is open. It can be seen
from the levels of the book and the orders of its instrument. -/
structure Desk.Lasting (mode : ExecutionPriceMode) (P : Desk → Prop) : Prop where
  fresh : ∀ (i : Instrument) (orders : OrderTable),
    P ⟨.empty i, orders.restrict fun j => decide (j ≠ i)⟩
  seen : ∀ {d d' : Desk}, d'.book.instrument = d.book.instrument →
    (∀ side, d'.book.onSide side = d.book.onSide side) →
    (d'.orders.restrict fun j => decide (j = d.book.instrument)) =
      (d.orders.restrict fun j => decide (j = d.book.instrument)) → P d → P d'
  kept : ∀ {d d' : Desk} {m : Message} {effect : Effect},
    (m.action mode).IsOn d.book.instrument → d.Moves (m.action mode) d' (.ok effect) → P d → P d'

/-- What lasts one by one lasts together. -/
theorem Desk.Lasting.all {ι : Type} {mode : ExecutionPriceMode} {P : ι → Desk → Prop}
    (h : ∀ x, Desk.Lasting mode (P x)) : Desk.Lasting mode fun d => ∀ x, P x d where
  fresh i orders x := (h x).fresh i orders
  seen hinst hlevels horders hd x := (h x).seen hinst hlevels horders (hd x)
  kept hm hmoves hd x := (h x).kept hm hmoves (hd x)

namespace Store

variable {rules : Rules} {s s' : Store} {e : Event} {outcome : Outcome} {i : Instrument}
  {P : Desk → Prop}

/-- Every open book has the property, together with the live orders. -/
def Keeps (P : Desk → Prop) (s : Store) : Prop :=
  ∀ i, (s.book i).isCorrupted = false → P ⟨s.book i, s.orders⟩

theorem keeps_empty {mode : ExecutionPriceMode} (hP : Desk.Lasting mode P) : empty.Keeps P := by
  intro i _
  have h := hP.fresh i .empty
  rw [OrderTable.restrict_empty] at h
  have hbook : empty.book i = .empty i := by simp [book]
  rwa [hbook]

theorem Moves.keeps (h : Moves rules s e s' outcome) (hs : s.Sound)
    (hP : Desk.Lasting rules.executionPriceMode P) (hk : s.Keeps P) : s'.Keeps P := by
  intro i hopen
  by_cases hi : e.instrument? = some i
  · obtain ⟨d, effect, hwas, hdesk, rfl⟩ := h.of_open hi hopen
    have hon : (e.message.action rules.executionPriceMode).IsOn (s.book i).instrument :=
      (hs.book i).symm ▸ Message.isOn_action rules.executionPriceMode hi
    rw [book_set, if_pos rfl]
    exact hP.seen (instrument_publish rules d.book effect)
      (fun side => onSide_publish rules d.book effect side) rfl (hP.kept hon hdesk (hk i hwas))
  · have hbook := h.book_of_ne hi
    have hdrop : ∀ j, e.instrument? = some j → decide (j = (s.book i).instrument) = false := by
      intro j hj
      rw [hs.book i, decide_eq_false_iff_not]
      rintro rfl
      exact hi hj
    rw [hbook] at hopen ⊢
    exact hP.seen (d := ⟨s.book i, s.orders⟩) rfl (fun _ => rfl)
      (congrArg Store.orders (h.restrict hs hdrop)) (hk i hopen)

theorem Keeps.reset {mode : ExecutionPriceMode} (hP : Desk.Lasting mode P) (hs : s.Sound)
    (hk : s.Keeps P) (i : Instrument) : (s.reset i).1.Keeps P := by
  intro j hj
  rw [hs.book_reset] at hj ⊢
  rw [orders_reset]
  by_cases h : j = i
  · rw [if_pos h]
    exact hP.fresh i s.orders
  · rw [if_neg h] at hj ⊢
    refine hP.seen (d := ⟨s.book j, s.orders⟩) rfl (fun _ => rfl) ?_ (hk j hj)
    dsimp only
    rw [hs.book j, OrderTable.restrict_restrict]
    congr 1
    funext l
    by_cases hl : l = j
    · simp [hl, h]
    · simp [hl]

theorem Keeps.call (hP : Desk.Lasting rules.executionPriceMode P) (hs : s.Sound) (hk : s.Keeps P)
    (c : Call) : (s.call rules c).1.Keeps P := by
  cases c with
  | process e latency => exact (apply_moves rules hs.orders e).keeps hs hP hk
  | reset i => exact hk.reset hP hs i

/-- A lasting property holds of every book that is open after a run. -/
theorem Keeps.run (hP : Desk.Lasting rules.executionPriceMode P) (hs : s.Sound) (hk : s.Keeps P)
    (calls : List Call) : (s.run rules calls).1.Keeps P :=
  run_invariant (fun _ c hs hk => hk.call hP hs c) hs hk calls

end Store
end TopOfBook
