import TopOfBook.Proofs.Recompute

/-! An execution may carry a price of its own. One execution price mode takes its shares off the
level at that price, the other off the level where the order rests, and this is all that the mode
is for. The price is read only once shares have come off a live order of the event's own
instrument while the book is open. So where each of these executions is at the price where its
order rests, two dispatchers that differ in the mode alone answer every call alike and stay equal
but for the mode. -/

namespace TopOfBook

/-- A reduction takes off what it is asked to take off, from an order that has as much. -/
theorem OrderTable.reduce_eq_ok {t t' : OrderTable} {id : OrderId} {quantity : Quantity}
    {r : Reduction} (h : t.reduce id quantity = .ok (t', r)) :
    r.reduced = quantity ∧ ∃ o, t.find? id = some o ∧ quantity.toNat ≤ o.quantity.toNat := by
  cases hf : t.find? id with
  | none => simp [reduce, hf] at h
  | some o =>
    have htake : t.take id (some quantity) = .ok (t', r) := h
    obtain ⟨rest, hrest, -, rfl⟩ := (take_eq_ok_iff hf).1 htake
    rw [Option.getD_some] at hrest
    exact ⟨rfl, o, rfl, by omega⟩

namespace Desk

variable {d : Desk} {id : OrderId} {quantity : Quantity}

/-- There are shares to come off the order, which is a live one of the instrument of the book and
has as many. -/
structure Takes (d : Desk) (id : OrderId) (quantity : Quantity) (o : Order) : Prop where
  live : d.orders.find? id = some o
  own : o.instrument = d.book.instrument
  some : 0 < quantity.toNat
  enough : quantity.toNat ≤ o.quantity.toNat

/-- A price matters only where shares come off an order. -/
theorem reduce_price_congr {price price' : Option Price}
    (h : ∀ o, d.Takes id quantity o → price.getD o.price = price'.getD o.price) :
    d.reduce id (some quantity) price = d.reduce id (some quantity) price' := by
  unfold reduce
  cases hl : d.orders.lookup id with
  | error fault => rfl
  | ok o =>
    dsimp only
    split
    · rfl
    rename_i hown
    rw [Option.elim_some]
    cases hr : d.orders.reduce id quantity with
    | error fault => rfl
    | ok result =>
      obtain ⟨hreduced, o', hlive, hle⟩ := OrderTable.reduce_eq_ok hr
      obtain rfl : o' = o := Option.some.inj (hlive.symm.trans (OrderTable.lookup_eq_ok_iff.1 hl))
      dsimp only
      split
      · rfl
      rename_i hsome
      rw [hreduced, Bool.not_eq_true, Quantity.isZero_eq_false_iff] at hsome
      rw [h o' ⟨hlive, not_not.1 hown, hsome, hle⟩]

end Desk

namespace Store

variable {rules rules' : Rules} {s : Store} {e : Event}

/-- An execution with a price that takes shares off an order, in an open book, does so at the price
where the order rests. -/
def AtRestingPrice (s : Store) (e : Event) : Prop :=
  match e.message with
  | .orderExecutedWithPrice i id quantity _ price _ =>
    (s.book i).isCorrupted = false → ∀ o, (Desk.mk (s.book i) s.orders).Takes id quantity o →
      price = o.price
  | _ => True

/-- Each execution with a price is at the price where its order rests when it comes. -/
def AtRestingPrices (rules : Rules) (s : Store) : List Call → Prop
  | [] => True
  | .process e latency :: rest =>
    s.AtRestingPrice e ∧ (s.call rules (.process e latency)).1.AtRestingPrices rules rest
  | .reset i :: rest => (s.call rules (.reset i)).1.AtRestingPrices rules rest

/-- At the resting price, the mode makes no difference to a message. -/
theorem AtRestingPrice.apply_mode (h : s.AtRestingPrice e) {i : Instrument}
    (hi : e.instrument? = some i) (hopen : (s.book i).isCorrupted = false)
    (mode mode' : ExecutionPriceMode) :
    (Desk.mk (s.book i) s.orders).apply mode e.message =
      (Desk.mk (s.book i) s.orders).apply mode' e.message := by
  obtain ⟨header, message⟩ := e
  cases message with
  | orderExecutedWithPrice j id quantity matchNumber price printable =>
    obtain rfl : j = i := Option.some.inj hi
    refine Desk.reduce_price_congr fun o ho => ?_
    have hprice : price = o.price := h hopen o ho
    cases mode <;> cases mode' <;> simp [hprice]
  | _ => rfl

/-- At the resting price, rules that differ in the mode alone lead to the same. -/
theorem AtRestingPrice.apply_congr (h : s.AtRestingPrice e)
    (hrules : rules'.alwaysRecompute = rules.alwaysRecompute) :
    s.apply rules' e = s.apply rules e := by
  unfold apply
  cases hi : e.instrument? with
  | none => rfl
  | some i =>
    simp only
    split
    · rfl
    rename_i hopen
    rw [Bool.not_eq_true] at hopen
    unfold applyOpen
    rw [h.apply_mode hi hopen rules'.executionPriceMode rules.executionPriceMode]
    cases (Desk.mk (s.book i) s.orders).apply rules.executionPriceMode e.message with
    | mk d r =>
      cases r with
      | error fault => rfl
      | ok effect => cases effect <;> simp only [publish, hrules]

end Store

namespace Dispatcher

variable {d : Dispatcher} {rules : Rules}

/-- At the resting prices, a run in the other mode answers alike and ends alike. -/
theorem run_under_of_restingPrices (hrules : rules.alwaysRecompute = d.rules.alwaysRecompute)
    {calls : List Call} (h : d.store.AtRestingPrices d.rules calls) :
    (d.under rules).run calls = ((d.run calls).1.under rules, (d.run calls).2) := by
  refine run_under (P := fun d calls => rules.alwaysRecompute = d.rules.alwaysRecompute ∧
    d.store.AtRestingPrices d.rules calls) ?_ ⟨hrules, h⟩
  rintro d c rest ⟨hrules, h⟩
  obtain ⟨hstore, hsame, -⟩ := d.call_eq c
  rw [hstore, hsame]
  cases c with
  | reset i => exact ⟨rfl, hrules, h⟩
  | process e latency =>
    refine ⟨call_under fun e' latency' he => ?_, hrules, h.2⟩
    obtain ⟨rfl, -⟩ := Call.process.inj he
    exact h.1.apply_congr hrules

end Dispatcher

/-- Where every execution with a price that takes shares off an order is at the price where the
order rests, in the run under either mode, a dispatcher that reduces the level at the price of the
event and one that reduces the level where the order rests are built alike or not at all. They
answer every call alike, and leave the same books, orders, counters and statistics. -/
theorem run_at_restingPrices (c : EngineConfig) (calls : List Call) (mode : ExecutionPriceMode)
    (hprices : Store.empty.AtRestingPrices ⟨mode, c.alwaysRecompute⟩ calls) :
    match Dispatcher.make { c with executionPriceMode := .eventPrice },
      Dispatcher.make { c with executionPriceMode := .restingPrice } with
    | .ok event, .ok resting =>
      (resting.run calls).2 = (event.run calls).2 ∧
      (resting.run calls).1.store = (event.run calls).1.store ∧
      (resting.run calls).1.counters = (event.run calls).1.counters ∧
      (resting.run calls).1.statistics = (event.run calls).1.statistics ∧
      (resting.run calls).1.instrumentStatistics = (event.run calls).1.instrumentStatistics ∧
      (resting.run calls).1.depths = (event.run calls).1.depths
    | .error fault, .error fault' => fault' = fault
    | _, _ => False := by
  rw [Dispatcher.make_rules c .eventPrice c.alwaysRecompute,
    Dispatcher.make_rules c .restingPrice c.alwaysRecompute]
  cases hd : Dispatcher.make c with
  | error fault => rfl
  | ok d =>
    -- the run in the mode of the hypothesis, against which both are compared
    let run := (d.under ⟨mode, c.alwaysRecompute⟩).run calls
    have hprices : (d.under ⟨mode, c.alwaysRecompute⟩).store.AtRestingPrices
        ⟨mode, c.alwaysRecompute⟩ calls := (Dispatcher.store_of_make hd).1.symm ▸ hprices
    have hrun (mode' : ExecutionPriceMode) : (d.under ⟨mode', c.alwaysRecompute⟩).run calls =
        (run.1.under ⟨mode', c.alwaysRecompute⟩, run.2) :=
      Dispatcher.run_under_of_restingPrices (d := d.under ⟨mode, c.alwaysRecompute⟩)
        (show (Rules.mk mode' c.alwaysRecompute).alwaysRecompute = c.alwaysRecompute from rfl)
        hprices
    dsimp only [Except.map]
    rw [hrun .eventPrice, hrun .restingPrice]
    exact ⟨rfl, rfl, rfl, rfl, rfl, rfl⟩

/-- Two offers, of which the first is executed in part where it rests. The executions behind it
carry other prices: of an order that is not live, of one of another instrument, of more shares
than there are, of none, and of a live order whose book is corrupted by then. -/
def executedAtRest : List Call :=
  [.process ⟨default, .addOrder ⟨1, ⟨1⟩, .sell, ⟨100⟩, ⟨10⟩⟩⟩ 0,
    .process ⟨default, .addOrder ⟨2, ⟨2⟩, .sell, ⟨200⟩, ⟨10⟩⟩⟩ 0,
    .process ⟨default, .orderExecutedWithPrice ⟨1⟩ 1 ⟨4⟩ 7 ⟨100⟩ true⟩ 0,
    .process ⟨default, .orderExecutedWithPrice ⟨1⟩ 1 ⟨0⟩ 8 ⟨99⟩ true⟩ 0,
    .process ⟨default, .orderExecutedWithPrice ⟨1⟩ 1 ⟨7⟩ 9 ⟨98⟩ true⟩ 0,
    .process ⟨default, .orderExecutedWithPrice ⟨1⟩ 1 ⟨1⟩ 10 ⟨97⟩ true⟩ 0,
    .process ⟨default, .orderExecutedWithPrice ⟨2⟩ 1 ⟨1⟩ 11 ⟨96⟩ true⟩ 0,
    .process ⟨default, .orderExecutedWithPrice ⟨3⟩ 9 ⟨1⟩ 12 ⟨95⟩ true⟩ 0]

theorem run_at_restingPrices_executedAtRest :
    ∃ event resting,
      Dispatcher.make { EngineConfig.standard with executionPriceMode := .eventPrice } = .ok event ∧
      Dispatcher.make { EngineConfig.standard with executionPriceMode := .restingPrice } =
        .ok resting ∧
      Store.empty.AtRestingPrices ⟨.eventPrice, false⟩ executedAtRest ∧
      (resting.run executedAtRest).2 = (event.run executedAtRest).2 ∧
      (resting.run executedAtRest).1.store = (event.run executedAtRest).1.store := by
  have hprices : Store.empty.AtRestingPrices ⟨.eventPrice, false⟩ executedAtRest := by
    simp only [executedAtRest, Store.AtRestingPrices]
    refine ⟨trivial, trivial, ?atRest, ?none, ?tooMany, ?corrupted, ?foreign, ?unknown, trivial⟩
    case atRest =>
      intro _ o ho
      have hlive := ho.live
      cbv at hlive
      cases hlive
      rfl
    case none =>
      intro _ o ho
      have hsome := ho.some
      cbv at hsome
    case tooMany =>
      intro _ o ho
      have hlive := ho.live
      cbv at hlive
      cases hlive
      have hle := ho.enough
      cbv at hle
    case corrupted =>
      intro hopen
      cbv at hopen
      cases hopen
    case foreign =>
      intro _ o ho
      have hlive := ho.live
      cbv at hlive
      cases hlive
      have hown := ho.own
      cbv at hown
      exact absurd hown (by decide)
    case unknown =>
      intro _ o ho
      have hlive := ho.live
      cbv at hlive
      cases hlive
  have h := run_at_restingPrices .standard executedAtRest .eventPrice hprices
  obtain ⟨event, hevent⟩ : ∃ event, Dispatcher.make
      { EngineConfig.standard with executionPriceMode := .eventPrice } = .ok event := ⟨_, rfl⟩
  obtain ⟨resting, hresting⟩ : ∃ resting, Dispatcher.make
      { EngineConfig.standard with executionPriceMode := .restingPrice } = .ok resting := ⟨_, rfl⟩
  rw [hevent, hresting] at h
  exact ⟨event, resting, hevent, hresting, hprices, h.1, h.2.1⟩

end TopOfBook
