import Std.Data.TreeMap
import TopOfBook.Proofs.Balance

/-! Faults that never happen. Where executions reduce the level at which an order rests, the level
holds at least the shares of the order, so it is never short of what comes off it. And whichever
level they reduce, the live orders are never in the way of a replacement that has passed its
checks. -/

namespace TopOfBook

/-- The level of a live order gives off what is left of the order, and less. -/
theorem Desk.Balanced.reduce_isOk {d : Desk} (hb : d.Balanced) (hd : d.orders.Sound)
    {id : OrderId} {o : Order} (hlive : d.orders.find? id = some o)
    (hown : o.instrument = d.book.instrument) {n : Quantity}
    (hn : n.toNat ≤ o.quantity.toNat) : (d.book.reduce o.side o.price n).isOk := by
  cases hr : d.book.reduce o.side o.price n with
  | ok _ => rfl
  | error fault =>
    obtain ⟨hshort, -⟩ := Book.reduce_eq_error_iff.1 hr
    have hpositive := hd.positive id o hlive
    have hheld := hb.le_sharesAt hlive hown
    rcases hshort with hnone | hless
    · rw [Book.sharesAt, BookSide.sharesAt, hnone, Option.elim_none] at hheld
      omega
    · omega

/-- No level is short where shares come off the levels at which their orders rest. -/
theorem Desk.Moves.not_short {d d' : Desk} {a : Action} {fault : BookFault}
    (h : d.Moves a d' (.error fault))
    (ha : ∀ id quantity price, a = .take id quantity price → price = none)
    (hd : d.orders.Sound) (hb : d.Balanced) (side : Side) (p : Price)
    (requested available : Quantity) : fault ≠ .levelShortage side p requested available := by
  cases h with
  | refused _ _ horders =>
    rintro rfl
    cases horders
  | addFailed _ _ _ hadd =>
    obtain ⟨-, rfl⟩ := Book.add_eq_error_iff.1 hadd
    simp
  | takeFailed id quantity price o n rest _ hlive hown hrest hreduce =>
    have hok := hb.reduce_isOk hd hlive hown (n := n) (by omega)
    rw [ha id quantity price rfl, Option.getD_none] at hreduce
    rw [hreduce] at hok
    cases hok
  | replaceShort _ _ _ _ old _ hlive hown _ hreduce =>
    have hok := hb.reduce_isOk hd hlive hown (Nat.le_refl _)
    rw [hreduce] at hok
    cases hok
  | replaceFull _ _ _ _ _ _ _ _ _ _ _ _ hadd =>
    obtain ⟨-, rfl⟩ := Book.add_eq_error_iff.1 hadd
    simp

/-- An event finds no level short where the levels of open books hold the shares of the live
orders. -/
theorem Store.Moves.not_short {rules : Rules} {s s' : Store} {e : Event} {i : Instrument}
    {sequence offset : UInt64} {fault : BookFault}
    (h : Moves rules s e s' (.error (.integrity i sequence offset fault)))
    (hmode : rules.executionPriceMode = .restingPrice) (hs : s.Sound) (hb : s.Balanced)
    (side : Side) (p : Price) (requested available : Quantity) :
    fault ≠ .levelShortage side p requested available := by
  cases h with
  | failed _ _ _ _ hopen hdesk =>
    rw [hmode] at hdesk
    exact hdesk.not_short (fun _ _ _ => Message.action_restingPrice) hs.orders (hb i hopen) side p
      requested available

/-- Where executions reduce the level at which an order rests, no event after any others finds a
level short of shares. And whichever level they reduce, the live orders let through every
replacement that has passed its checks: the old one can be removed, and the new one registered. -/
theorem run_never_short {c : EngineConfig} {d : Dispatcher} (hd : Dispatcher.make c = .ok d)
    (calls : List Call) :
    let before := (d.run calls).1
    (c.executionPriceMode = .restingPrice →
      ∀ e latency i sequence offset side p requested available,
        (before.process e latency).2.outcome ≠
          .error (.integrity i sequence offset (.levelShortage side p requested available))) ∧
    ∀ i oldId newId old price quantity,
      let desk : Desk := ⟨before.store.book i, before.store.orders⟩
      desk.orders.lookup oldId = .ok old → desk.replaceFault? old newId quantity = none →
      ∃ without removed orders, desk.orders.remove old.id = .ok (without, removed) ∧
        without.register ⟨newId, old.instrument, old.side, price, quantity⟩ = .ok orders := by
  obtain ⟨hstore, hrules, -⟩ := Dispatcher.run_of_make hd calls
  have hs : (d.run calls).1.store.Sound := hstore ▸ Store.sound_empty.run c.rules calls
  constructor
  · intro hmode e latency i sequence offset side p requested available hfault
    have hb : (d.run calls).1.store.Balanced :=
      hstore ▸ Store.balanced_empty.run hmode Store.sound_empty calls
    have hmoves := Dispatcher.process_moves hs e latency
    rw [hfault, hrules] at hmoves
    exact hmoves.not_short hmode hs hb side p requested available rfl
  · intro i oldId newId old price quantity desk hlookup hcheck
    obtain ⟨hremove, hregister⟩ := Desk.orders_replaced (d := desk) hs.orders
      (OrderTable.lookup_eq_ok_iff.1 hlookup) hcheck price
    exact ⟨_, _, _, hremove, hregister⟩

/-- Two bids at two prices, and an unknown order that corrupts another instrument. -/
def twoBids : List Call :=
  [.process ⟨default, .addOrder ⟨1, ⟨1⟩, .buy, ⟨100⟩, ⟨10⟩⟩⟩ 0,
    .process ⟨default, .addOrder ⟨2, ⟨1⟩, .buy, ⟨101⟩, ⟨4⟩⟩⟩ 0,
    .process ⟨default, .orderDelete ⟨2⟩ 7⟩ 0]

/-- Executes the first bid at the price of the second one, whose level holds fewer shares. -/
def firstAtSecond : Event := ⟨default, .orderExecutedWithPrice ⟨1⟩ 1 ⟨6⟩ 0 ⟨101⟩ true⟩

theorem run_never_short_twoBids :
    ∃ d,
      Dispatcher.make { EngineConfig.standard with executionPriceMode := .restingPrice } = .ok d ∧
      ((d.run twoBids).1.process firstAtSecond 0).2.outcome ≠
        .error (.integrity ⟨1⟩ 0 0 (.levelShortage .buy ⟨101⟩ ⟨6⟩ ⟨4⟩)) ∧
      ∃ without removed orders, (d.run twoBids).1.store.orders.remove 2 = .ok (without, removed) ∧
        without.register ⟨9, ⟨1⟩, .buy, ⟨103⟩, ⟨5⟩⟩ = .ok orders := by
  obtain ⟨d, hd⟩ : ∃ d, Dispatcher.make
      { EngineConfig.standard with executionPriceMode := .restingPrice } = .ok d := ⟨_, rfl⟩
  have hstore : (d.run twoBids).1.store = (Store.empty.run ⟨.restingPrice, false⟩ twoBids).1 :=
    (Dispatcher.run_of_make hd twoBids).1
  have hlookup : (d.run twoBids).1.store.orders.lookup 2 =
      .ok ⟨2, ⟨1⟩, .buy, ⟨101⟩, ⟨4⟩⟩ := by
    rw [hstore]
    cbv
  have hcheck : Desk.replaceFault?
      ⟨(d.run twoBids).1.store.book ⟨1⟩, (d.run twoBids).1.store.orders⟩
      ⟨2, ⟨1⟩, .buy, ⟨101⟩, ⟨4⟩⟩ 9 ⟨5⟩ = none := by
    rw [hstore]
    cbv
  obtain ⟨hshort, hreplaced⟩ := run_never_short hd twoBids
  have htable := hreplaced ⟨1⟩ 2 9 _ ⟨103⟩ ⟨5⟩ hlookup hcheck
  exact ⟨d, hd, hshort rfl firstAtSecond 0 ⟨1⟩ 0 0 .buy ⟨101⟩ ⟨6⟩ ⟨4⟩, htable⟩

end TopOfBook
