import TopOfBook.Proofs.Interest

/-! The life of an order that is worked off. However its shares go, by executions and cancels and
a deletion at the end where some are left, nothing of it stays behind. Its shares come off the level
at which they were added, so the level is as it was whatever else is on it. -/

namespace TopOfBook

/-- The message takes so many shares off an order that rests at the price. -/
inductive Message.Takes (i : Instrument) (id : OrderId) (price : Price) (n : Quantity) :
    Message → Prop
  | executed (matchNumber : UInt64) : Takes i id price n (.orderExecuted i id n matchNumber)
  | executedWithPrice (matchNumber : UInt64) (printable : Bool) :
      Takes i id price n (.orderExecutedWithPrice i id n matchNumber price printable)
  | canceled : Takes i id price n (.orderCancel i id n)

namespace Message.Takes

variable {i : Instrument} {id : OrderId} {price : Price} {n : Quantity} {m : Message}

theorem instrument?_eq (h : m.Takes i id price n) : m.instrument? = some i := by
  cases h <;> rfl

/-- The shares come off the level at which the order rests, whichever way executions do it. -/
theorem action_eq (h : m.Takes i id price n) (mode : ExecutionPriceMode) :
    ∃ level : Option Price, m.action mode = .take id (some n) level ∧
      level.getD price = price := by
  cases h with
  | executed => exact ⟨none, rfl, rfl⟩
  | executedWithPrice => cases mode with
    | eventPrice => exact ⟨some price, rfl, rfl⟩
    | restingPrice => exact ⟨none, rfl, rfl⟩
  | canceled => exact ⟨none, rfl, rfl⟩

end Message.Takes

/-- Events that take shares off an order one after the other, so many in all. -/
inductive WorksOff (i : Instrument) (id : OrderId) (price : Price) : List Call → Nat → Prop
  | nil : WorksOff i id price [] 0
  | cons {e : Event} {n : Quantity} {rest : List Call} {total : Nat} (latency : UInt64)
      (htakes : e.message.Takes i id price n) (hsome : 0 < n.toNat)
      (hrest : WorksOff i id price rest total) :
      WorksOff i id price (.process e latency :: rest) (n.toNat + total)

/-- The calls of the life of an order: it is added, worked off, and deleted if shares of it are
left. -/
def lifeOf (o : Order) (adding : Call) (work : List Call) (total : Nat) (deleting : Call) :
    List Call :=
  adding :: (work ++ if total < o.quantity.toNat then [deleting] else [])

namespace Interest

variable {x : Interest} {o : Order}

/-- Shares come off an order that has entered as if it had entered with the rest. -/
theorem permits_take_enter (x : Interest) {quantity : Option Quantity} {level : Option Price}
    {rest : Quantity} (hsome : 0 < o.quantity.toNat) (hlevel : level.getD o.price = o.price)
    (hrest : rest.toNat + (quantity.getD o.quantity).toNat = o.quantity.toNat) :
    (x.enter o).Permits o.instrument (.take o.id quantity level)
      (x.enter { o with quantity := rest }) := by
  have hlive : (x.enter o).orders.find? o.id = some o := by
    rw [enter, OrderTable.find?_put, if_pos rfl, Quantity.isZero_eq_false_iff.2 hsome]
    rfl
  have hshares : (x.shares.plus o.side o.price rest.toNat).plus o.side (level.getD o.price)
      (quantity.getD o.quantity).toNat = (x.enter o).shares := by
    rw [hlevel, Shares.plus_plus, hrest]
    rfl
  have htake := Permits.take (x := x.enter o) o.id quantity level o rest _ hlive rfl hrest hshares
  rw [enter, OrderTable.put_put] at htake
  exact htake

/-- An order without shares leaves nothing at a free number. -/
theorem enter_of_zero (hfree : x.orders.find? o.id = none) (hzero : o.quantity.toNat = 0) :
    x.enter o = x := by
  rw [enter, hzero, Shares.plus_zero,
    OrderTable.put_of_free hfree (Quantity.isZero_iff.2 hzero)]

end Interest

namespace Store

variable {s t : Store} {e : Event} {o : Order} {left : Quantity} {work : List Call} {total : Nat}

/-- All answers of a run are those of events that went through. -/
def AllThrough (trace : List Entry) : Prop := ∀ a ∈ trace, ∃ u, a.answer = .outcome (.ok u)

theorem AllThrough.nil : AllThrough [] := fun _ ha => absurd ha List.not_mem_nil

theorem AllThrough.cons {a : Entry} {trace : List Entry}
    (ha : ∃ u, a.answer = .outcome (.ok u)) (h : AllThrough trace) : AllThrough (a :: trace) := by
  intro b hb
  rcases List.mem_cons.1 hb with rfl | hb
  · exact ha
  · exact h b hb

theorem AllThrough.append {trace trace' : List Entry} (h : AllThrough trace)
    (h' : AllThrough trace') : AllThrough (trace ++ trace') := by
  intro a ha
  rcases List.mem_append.1 ha with ha | ha
  · exact h a ha
  · exact h' a ha

/-- From one store to another, all that happened is that an order entered and has some shares
left. -/
structure Holding (s : Store) (o : Order) (left : Quantity) (t : Store) : Prop where
  sound : t.Sound
  through : Through o.instrument s t
  entered : t.interest o.instrument =
    (s.interest o.instrument).enter { o with quantity := left }

/-- An order enters an open book where its number is free and its level has room. -/
theorem apply_adding (rules : Rules) (hs : s.Sound) (hadding : e.message.added? = some o)
    (hopen : (s.book o.instrument).isCorrupted = false) (hfree : s.orders.find? o.id = none)
    (hsome : 0 < o.quantity.toNat)
    (hroom : (s.book o.instrument).sharesAt o.side o.price + o.quantity.toNat ≤
      Quantity.maximum) :
    (∃ u, (s.apply rules e).2 = .ok u) ∧ Holding s o o.quantity (s.apply rules e).1 := by
  have hpermits := Interest.Permits.add (i := o.instrument) (x := s.interest o.instrument) o hsome
    hfree hroom
  rw [← Message.action_of_added? rules.executionPriceMode hadding] at hpermits
  obtain ⟨hok, hthrough, hentered⟩ := apply_of_permits rules hs
    (Message.instrument?_of_added? hadding) hopen hpermits
  exact ⟨hok, hs.apply rules e, hthrough, hentered⟩

/-- Shares come off an order that has as many left. -/
theorem Holding.apply (rules : Rules) (h : Holding s o left t)
    (hi : e.instrument? = some o.instrument) {quantity : Option Quantity} {level : Option Price}
    (haction : e.message.action rules.executionPriceMode = .take o.id quantity level)
    (hlevel : level.getD o.price = o.price) (hleft : 0 < left.toNat) {rest : Quantity}
    (hrest : rest.toNat + (quantity.getD left).toNat = left.toNat) :
    (∃ u, (t.apply rules e).2 = .ok u) ∧ Holding s o rest (t.apply rules e).1 := by
  have hpermits := Interest.permits_take_enter (o := { o with quantity := left })
    (s.interest o.instrument) hleft hlevel hrest
  rw [← h.entered, ← haction] at hpermits
  obtain ⟨hok, hthrough, hentered⟩ :=
    apply_of_permits rules h.sound hi h.through.stays hpermits
  exact ⟨hok, h.sound.apply rules e, h.through.trans hthrough, hentered⟩

/-- As long as there are as many shares left, an order can be worked off. -/
theorem Holding.run (rules : Rules) (h : Holding s o left t)
    (hwork : WorksOff o.instrument o.id o.price work total) (htotal : total ≤ left.toNat) :
    AllThrough (t.run rules work).2 ∧
      ∃ rest : Quantity, rest.toNat + total = left.toNat ∧
        Holding s o rest (t.run rules work).1 := by
  induction hwork generalizing t left with
  | nil => exact ⟨.nil, left, rfl, h⟩
  | @cons e n calls total latency htakes hsome _ ih =>
    -- the first event leaves a rest, from which the others are taken in turn
    obtain ⟨level, haction, hlevel⟩ := htakes.action_eq rules.executionPriceMode
    obtain ⟨rest, hrest⟩ := Quantity.exists_rest (show n.toNat ≤ left.toNat by omega)
    obtain ⟨hok, h'⟩ := h.apply rules htakes.instrument?_eq haction hlevel (by omega) hrest
    obtain ⟨hall, rest', hrest', h''⟩ := ih h' (by omega)
    obtain ⟨u, hu⟩ := hok
    exact ⟨hall.cons ⟨u, congrArg Answer.outcome hu⟩, rest', by omega, h''⟩

/-- The rest of an order that was worked off is deleted, if there is one. -/
theorem Holding.finish (rules : Rules) (h : Holding s o left t)
    (hleft : left.toNat + total = o.quantity.toNat)
    (hdeleting : e.message = .orderDelete o.instrument o.id) (latency : UInt64) :
    let ending : List Call := if total < o.quantity.toNat then [.process e latency] else []
    AllThrough (t.run rules ending).2 ∧ Holding s o .zero (t.run rules ending).1 := by
  have hi : e.instrument? = some o.instrument := congrArg Message.instrument? hdeleting
  dsimp only
  split
  · have haction : e.message.action rules.executionPriceMode = .take o.id none none := by
      rw [hdeleting]
      rfl
    have hrest : Quantity.zero.toNat + (none.getD left).toNat = left.toNat := by
      rw [Option.getD_none, Quantity.toNat_zero, Nat.zero_add]
    obtain ⟨⟨u, hu⟩, h'⟩ := h.apply rules hi haction rfl (by omega) hrest
    exact ⟨AllThrough.nil.cons ⟨u, congrArg Answer.outcome hu⟩, h'⟩
  · obtain rfl : left = .zero := Quantity.toNat_inj (by
      rw [Quantity.toNat_zero]
      omega)
    exact ⟨.nil, h⟩

/-- All events of the life of an order go through, and none of its shares are left. -/
theorem run_life (rules : Rules) (hs : s.Sound) {adding deleting : Event}
    (hadding : adding.message.added? = some o)
    (hdeleting : deleting.message = .orderDelete o.instrument o.id)
    (hwork : WorksOff o.instrument o.id o.price work total) (htotal : total ≤ o.quantity.toNat)
    (hopen : (s.book o.instrument).isCorrupted = false) (hfree : s.orders.find? o.id = none)
    (hsome : 0 < o.quantity.toNat)
    (hroom : (s.book o.instrument).sharesAt o.side o.price + o.quantity.toNat ≤
      Quantity.maximum)
    (latency latency' : UInt64) :
    let calls := lifeOf o (.process adding latency) work total (.process deleting latency')
    AllThrough (s.run rules calls).2 ∧ Holding s o .zero (s.run rules calls).1 := by
  obtain ⟨⟨u, hu⟩, hadded⟩ := apply_adding rules hs hadding hopen hfree hsome hroom
  obtain ⟨hall, rest, hrest, hworked⟩ := hadded.run rules hwork htotal
  obtain ⟨hall', hfinished⟩ := hworked.finish rules hrest hdeleting latency'
  dsimp only
  rw [lifeOf, Store.run, run_append]
  exact ⟨(hall.append hall').cons ⟨u, congrArg Answer.outcome hu⟩, hfinished⟩

/-- With no shares left, the order might never have entered. -/
theorem Holding.restores (h : Holding s o .zero t) (hs : s.Sound) (hc : s.Current)
    (hc' : t.Current) (hfree : s.orders.find? o.id = none) :
    t.orders = s.orders ∧
      ∀ j, t.book? j = if j = o.instrument then some (s.book j) else s.book? j := by
  have hsame := h.entered
  rw [Interest.enter_of_zero hfree rfl] at hsame
  exact ⟨congrArg Interest.orders hsame, h.through.restores hs h.sound hc hc' hsame⟩

end Store

/-- An order with a free number and room on its level is added to an open book, worked off at its
own price, and deleted if shares of it are left. All of these events go through. Afterwards the
live orders and all books are as they were, with the insides published last, except that the
instrument of the order now has a book, an empty one, if it had none. -/
theorem run_worked_off {c : EngineConfig} {d : Dispatcher} (hd : Dispatcher.make c = .ok d)
    (calls : List Call) {o : Order} {adding deleting : Event}
    (hadding : adding.message.added? = some o)
    (hdeleting : deleting.message = .orderDelete o.instrument o.id) {work : List Call}
    {total : Nat} (hwork : WorksOff o.instrument o.id o.price work total)
    (htotal : total ≤ o.quantity.toNat)
    (hopen : ((d.run calls).1.store.book o.instrument).corruption = none)
    (hfree : (d.run calls).1.store.orders.find? o.id = none) (hsome : 0 < o.quantity.toNat)
    (hroom : ((d.run calls).1.store.book o.instrument).sharesAt o.side o.price +
      o.quantity.toNat ≤ Quantity.maximum)
    (latency latency' : UInt64) :
    let before := (d.run calls).1
    let after := before.run
      (lifeOf o (.process adding latency) work total (.process deleting latency'))
    (∀ a ∈ after.2, ∃ u, a.answer = .outcome (.ok u)) ∧
    after.1.store.orders = before.store.orders ∧
    ∀ j, after.1.store.book? j =
      if j = o.instrument then some (before.store.book j) else before.store.book? j := by
  have hs := Dispatcher.sound_run_of_make hd calls
  have hc := Store.current_run_of_make hd calls
  obtain ⟨hafter, -, htrace⟩ := (d.run calls).1.run_eq
    (lifeOf o (.process adding latency) work total (.process deleting latency'))
  obtain ⟨hall, hfinished⟩ := Store.run_life (d.run calls).1.rules hs hadding hdeleting hwork
    htotal (Book.isCorrupted_eq_false_iff.2 hopen) hfree hsome hroom latency latency'
  dsimp only
  rw [hafter, htrace]
  exact ⟨hall, hfinished.restores hs hc (hc.run hs _) hfree⟩

/-- Two bids, and an execution of the first one at the price of the second, so that neither level
holds the shares of its order. -/
def driftedBids : List Call :=
  [.process ⟨default, .addOrder ⟨1, ⟨1⟩, .buy, ⟨100⟩, ⟨10⟩⟩⟩ 0,
    .process ⟨default, .addOrder ⟨2, ⟨1⟩, .buy, ⟨101⟩, ⟨10⟩⟩⟩ 0,
    .process ⟨default, .orderExecutedWithPrice ⟨1⟩ 1 ⟨4⟩ 0 ⟨101⟩ true⟩ 0]

/-- An execution and a cancel of a third bid. -/
def thirdBidWork : List Call :=
  [.process ⟨default, .orderExecutedWithPrice ⟨1⟩ 3 ⟨2⟩ 0 ⟨101⟩ true⟩ 0,
    .process ⟨default, .orderCancel ⟨1⟩ 3 ⟨1⟩⟩ 0]

theorem run_worked_off_thirdBid :
    ∃ d, Dispatcher.make .standard = .ok d ∧
      let before := (d.run driftedBids).1
      let life := lifeOf ⟨3, ⟨1⟩, .buy, ⟨101⟩, ⟨7⟩⟩
        (.process ⟨default, .addOrder ⟨3, ⟨1⟩, .buy, ⟨101⟩, ⟨7⟩⟩⟩ 0) thirdBidWork 3
        (.process ⟨default, .orderDelete ⟨1⟩ 3⟩ 0)
      life.length = 4 ∧ (before.store.book ⟨1⟩).sharesAt .buy ⟨101⟩ = 6 ∧
      (∀ a ∈ (before.run life).2, ∃ u, a.answer = .outcome (.ok u)) ∧
      (before.run life).1.store.orders = before.store.orders ∧
      (before.run life).1.store.book? ⟨1⟩ = some (before.store.book ⟨1⟩) := by
  obtain ⟨d, hd⟩ : ∃ d, Dispatcher.make .standard = .ok d := ⟨_, rfl⟩
  have hstore : (d.run driftedBids).1.store =
      (Store.empty.run ⟨.eventPrice, false⟩ driftedBids).1 :=
    (Dispatcher.run_of_make hd driftedBids).1
  have hadding : (Event.mk default (.addOrder ⟨3, ⟨1⟩, .buy, ⟨101⟩, ⟨7⟩⟩)).message.added? =
      some ⟨3, ⟨1⟩, .buy, ⟨101⟩, ⟨7⟩⟩ := rfl
  have hdeleting : (Event.mk default (.orderDelete ⟨1⟩ 3)).message = .orderDelete ⟨1⟩ 3 := rfl
  have hwork : WorksOff ⟨1⟩ 3 ⟨101⟩ thirdBidWork 3 := by
    have htwo : 0 < (⟨2⟩ : Quantity).toNat := by decide
    have hone : 0 < (⟨1⟩ : Quantity).toNat := by decide
    exact .cons 0 (.executedWithPrice 0 true) htwo (.cons 0 .canceled hone .nil)
  have hopen : ((d.run driftedBids).1.store.book ⟨1⟩).corruption = none := by
    rw [hstore]
    cbv
  have hfree : (d.run driftedBids).1.store.orders.find? 3 = none := by
    rw [hstore]
    cbv
  have hshares : ((d.run driftedBids).1.store.book ⟨1⟩).sharesAt .buy ⟨101⟩ = 6 := by
    rw [hstore]
    cbv
  obtain ⟨hall, horders, hbooks⟩ := run_worked_off hd driftedBids hadding hdeleting hwork
    (by decide) hopen hfree (by decide) (by rw [hshares]; decide) 0 0
  exact ⟨d, hd, rfl, hshares, hall, horders, hbooks ⟨1⟩⟩

end TopOfBook
