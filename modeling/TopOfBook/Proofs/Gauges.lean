import TopOfBook.Proofs.OpenBooks

/-! Shares counted twice: on some levels of a book, and on the live orders that rest there. Every
message that goes through moves both counts alike, provided that executions come off a level that
is covered exactly when the level of the order is. So the counts are equal for every open book. -/

namespace TopOfBook

/-- A count of the shares on some levels of a book: it moves with what is added to and taken off
those levels. -/
structure Gauge where
  covers : Side → Price → Prop
  [decidable : ∀ s p, Decidable (covers s p)]
  shares : Book → Nat
  empty : ∀ i, shares (.empty i) = 0
  seen : ∀ {b c : Book}, (∀ s, c.onSide s = b.onSide s) → shares c = shares b
  add : ∀ {b c : Book} {s : Side} {p : Price} {q : Quantity} {touched : Bool},
    b.add s p q = .ok (c, touched) → shares c = shares b + if covers s p then q.toNat else 0
  reduce : ∀ {b c : Book} {s : Side} {p : Price} {q : Quantity} {touched : Bool},
    b.reduce s p q = .ok (c, touched) → shares c + (if covers s p then q.toNat else 0) = shares b

attribute [instance] Gauge.decidable

namespace Gauge

variable (g : Gauge) {mode : ExecutionPriceMode} {i : Instrument}

/-- Whether an order is for the instrument and rests at a level that is covered. -/
def counts (i : Instrument) (o : Order) : Bool := o.instrument = i ∧ g.covers o.side o.price

/-- The levels hold the shares that are left on the orders there. -/
def Even (d : Desk) : Prop := g.shares d.book = d.orders.sharesWhere (g.counts d.book.instrument)

/-- Executions come off a level that is covered when the order rests at one, and only then. -/
def Follows (mode : ExecutionPriceMode) : Prop :=
  ∀ (m : Message) id quantity price, m.action mode = .take id quantity price →
    ∀ s p, g.covers s (price.getD p) ↔ g.covers s p

theorem follows_restingPrice : g.Follows .restingPrice := by
  intro m id quantity price ha s p
  rw [Message.action_restingPrice ha, Option.getD_none]

theorem sharesOf_counts {o : Order} (ho : o.instrument = i) :
    OrderTable.sharesOf (g.counts i) (some o) =
      if g.covers o.side o.price then o.quantity.toNat else 0 := by
  simp only [OrderTable.sharesOf, counts, ho, true_and, decide_eq_true_eq]

/-- A message that goes through moves both counts alike. -/
theorem even_of_moves {d d' : Desk} {m : Message} {effect : Effect} (hg : g.Follows mode)
    (hm : (m.action mode).IsOn d.book.instrument)
    (h : d.Moves (m.action mode) d' (.ok effect)) (hd : g.Even d) : g.Even d' := by
  have hinst := h.sameMarks.instrument
  unfold Even at hd ⊢
  rw [hinst]
  generalize ha : m.action mode = a at hm h
  cases h with
  | idle => exact hd
  | takenNothing => exact hd
  | added o book touched hfree hbook =>
    have hlevels := g.add hbook
    have horders := OrderTable.sharesWhere_put d.orders o.id o (g.counts d.book.instrument)
    rw [hfree, g.sharesOf_counts hm, OrderTable.sharesOf] at horders
    dsimp only
    omega
  | taken id quantity price o n rest book touched hlive hown hrest hbook =>
    have hlevels := g.reduce hbook
    have horders := OrderTable.sharesWhere_put d.orders id { o with quantity := rest }
      (g.counts d.book.instrument)
    rw [hlive, g.sharesOf_counts hown, g.sharesOf_counts (o := { o with quantity := rest }) hown]
      at horders
    simp only [hg m id quantity price ha] at hlevels
    dsimp only at horders ⊢
    split at hlevels
    · rw [if_pos ‹_›, if_pos ‹_›] at horders
      omega
    · rw [if_neg ‹_›, if_neg ‹_›] at horders
      omega
  | replaced oldId newId price quantity old without book touched touched' hlive hown hfree hreduce
      hadd =>
    have hremoved := g.reduce hreduce
    have hadded := g.add hadd
    have hold := OrderTable.sharesWhere_put d.orders oldId { old with quantity := .zero }
      (g.counts d.book.instrument)
    have hnew := OrderTable.sharesWhere_put (d.orders.put oldId { old with quantity := .zero })
      newId ⟨newId, old.instrument, old.side, price, quantity⟩ (g.counts d.book.instrument)
    rw [hlive, g.sharesOf_counts hown,
      g.sharesOf_counts (o := { old with quantity := .zero }) hown, Quantity.toNat_zero,
      ite_self] at hold
    rw [OrderTable.find?_put_zero_of_free hfree old,
      g.sharesOf_counts (o := ⟨newId, old.instrument, old.side, price, quantity⟩) hown,
      OrderTable.sharesOf] at hnew
    dsimp only at hnew ⊢
    omega

theorem lasting (hg : g.Follows mode) : Desk.Lasting mode g.Even where
  fresh i orders := by
    unfold Even
    rw [g.empty, OrderTable.sharesWhere_restrict_of_drop]
    intro o ho
    exact decide_eq_false fun hne => hne (of_decide_eq_true ho).1
  seen := by
    intro d d' hinst hlevels horders hd
    unfold Even
    rw [g.seen hlevels, hinst, OrderTable.sharesWhere_eq_of_restrict _ ?_ horders]
    · exact hd
    · exact fun o ho => decide_eq_true (of_decide_eq_true ho).1
  kept hm h hd := g.even_of_moves hg hm h hd

end Gauge
end TopOfBook
