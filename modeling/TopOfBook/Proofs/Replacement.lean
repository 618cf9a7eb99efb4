import Std.Data.TreeMap
import TopOfBook.Proofs.Shortage

/-! What a refused replacement leaves behind. What can be wrong with the two orders is looked at
before anything is changed, so then nothing has changed. The levels are only found wanting when
the new order is live in the place of the old one, and it stays there: where the old level is
short of shares no level has changed, where the new one has no room the shares of the old order
are gone. Where executions reduce the level at which an order rests, no level is ever short. -/

namespace TopOfBook

namespace OrderTable

variable {t : OrderTable} {oldId newId : OrderId} {old new : Order}

/-- A free number is another one than that of a live order. -/
theorem ne_of_free (hlive : t.find? oldId = some old) (hfree : t.find? newId = none) :
    oldId ≠ newId := by
  rintro rfl
  rw [hlive] at hfree
  cases hfree

/-- The old order is gone and the new one live. -/
theorem find?_replaced (hlive : t.find? oldId = some old) (hfree : t.find? newId = none)
    (hnew : new.quantity.isZero = false) :
    let replaced := (t.put oldId { old with quantity := .zero }).put newId new
    replaced.find? oldId = none ∧ replaced.find? newId = some new := by
  dsimp only
  constructor
  · rw [find?_put, if_neg (ne_of_free hlive hfree), find?_put, if_pos rfl]
    rfl
  · rw [find?_put, if_pos rfl, hnew]
    rfl

end OrderTable

namespace Desk.Moves

variable {d d' : Desk} {oldId newId : OrderId} {price : Price} {quantity : Quantity}
  {fault : BookFault}

/-- A fault of a level leaves the new order in the place of the old one. -/
theorem replaced_of_level (h : d.Moves (.replace oldId newId price quantity) d' (.error fault))
    (hlevel : fault.isOfLevel = true) :
    ∃ old, d.orders.find? oldId = some old ∧ d.orders.find? newId = none ∧
      d'.orders.find? oldId = none ∧
      d'.orders.find? newId = some ⟨newId, d.book.instrument, old.side, price, quantity⟩ := by
  cases h with
  | refused _ _ horders =>
    rw [horders] at hlevel
    cases hlevel
  | replaceShort _ _ _ _ old _ hlive hown hfree _ hquantity =>
    exact ⟨old, hlive, hfree, hown ▸ OrderTable.find?_replaced hlive hfree hquantity⟩
  | replaceFull _ _ _ _ old _ _ _ hlive hown hfree _ _ hquantity =>
    exact ⟨old, hlive, hfree, hown ▸ OrderTable.find?_replaced hlive hfree hquantity⟩

/-- The live orders stay as they were when the fault lies with them, and only then. -/
theorem orders_eq_iff (h : d.Moves (.replace oldId newId price quantity) d' (.error fault)) :
    d'.orders = d.orders ↔ fault.isOfLevel = false := by
  constructor
  · intro hsame
    rw [← Bool.not_eq_true]
    intro hlevel
    obtain ⟨old, hlive, -, hgone, -⟩ := h.replaced_of_level hlevel
    rw [hsame, hlive] at hgone
    cases hgone
  · intro horders
    rw [h.eq_of_fault horders]

/-- The levels stay as they were unless the new one has no room. -/
theorem levels_eq_iff (h : d.Moves (.replace oldId newId price quantity) d' (.error fault))
    (hd : d.orders.Sound) :
    (∀ side, d'.book.onSide side = d.book.onSide side) ↔
      ∀ side p requested available, fault ≠ .levelOverflow side p requested available := by
  cases h with
  | refused _ _ horders =>
    refine iff_of_true (fun _ => rfl) ?_
    rintro side p requested available rfl
    cases horders
  | replaceShort _ _ _ _ _ _ _ _ _ hreduce =>
    obtain ⟨-, rfl⟩ := Book.reduce_eq_error_iff.1 hreduce
    exact iff_of_true (fun _ => rfl) (by simp)
  | replaceFull _ _ _ _ old without _ _ hlive _ _ hreduce hadd =>
    obtain ⟨-, rfl⟩ := Book.add_eq_error_iff.1 hadd
    refine iff_of_false (fun hsame => ?_) (by simp)
    -- the level of the old order holds fewer shares than before
    have htaken := Book.sharesAt_reduce hreduce old.side old.price
    have hpositive := hd.positive oldId old hlive
    rw [if_pos ⟨rfl, rfl⟩, Book.sharesAt, hsame, ← Book.sharesAt] at htaken
    omega

/-- Where the levels hold the shares of the live orders, none is short of the old order's. -/
theorem ne_levelShortage (h : d.Moves (.replace oldId newId price quantity) d' (.error fault))
    (hd : d.orders.Sound) (hb : d.Balanced) (side : Side) (p : Price)
    (requested available : Quantity) : fault ≠ .levelShortage side p requested available :=
  h.not_short nofun hd hb side p requested available

end Desk.Moves

namespace Store

variable {rules : Rules} {s s' : Store} {e : Event} {i : Instrument} {oldId newId : OrderId}
  {price : Price} {quantity : Quantity} {refusal : Refusal}

/-- The live orders and the levels of an instrument are the same in two stores. -/
def Unchanged (i : Instrument) (s s' : Store) : Prop :=
  s'.orders = s.orders ∧ ∀ side, (s'.book i).onSide side = (s.book i).onSide side

/-- A replacement is refused because its instrument was corrupted before, or by the desk. -/
theorem Moves.of_refused_replacement (h : Moves rules s e s' (.error refusal))
    (he : e.message = .orderReplace i oldId newId price quantity) :
    (refusal.fault? = none ∧ s' = s) ∨
    ∃ fault d, refusal.fault? = some fault ∧ (s.book i).isCorrupted = false ∧
      Desk.Moves ⟨s.book i, s.orders⟩ (.replace oldId newId price quantity) d (.error fault) ∧
      s'.orders = d.orders ∧ ∀ side, (s'.book i).onSide side = d.book.onSide side := by
  have hi : e.instrument? = some i := congrArg Message.instrument? he
  cases h with
  | rejected => exact .inl ⟨rfl, rfl⟩
  | failed j d fault hj hopen hdesk =>
    obtain rfl : j = i := Option.some.inj (hj.symm.trans hi)
    rw [he] at hdesk
    refine .inr ⟨fault, d, rfl, hopen, hdesk, rfl, fun side => ?_⟩
    rw [book_set, if_pos rfl, Book.onSide_markCorrupted]

end Store

/-- A refused replacement leaves the live orders and the levels as they were, unless it found
fault with a level. Then the new order is live in the place of the old one, and the levels have
changed only if the new one has no room. Where executions reduce the level at which an order
rests, that is the only fault of a level there is. -/
theorem run_replace_refused {c : EngineConfig} {d : Dispatcher} (hd : Dispatcher.make c = .ok d)
    (calls : List Call) {e : Event} {i : Instrument} {oldId newId : OrderId} {price : Price}
    {quantity : Quantity} (he : e.message = .orderReplace i oldId newId price quantity)
    (latency : UInt64) {refusal : Refusal}
    (ho : ((d.run calls).1.process e latency).2.outcome = .error refusal) :
    let s := (d.run calls).1.store
    let s' := ((d.run calls).1.process e latency).1.store
    (s.Unchanged i s' ↔ ∀ fault, refusal.fault? = some fault → fault.isOfLevel = false) ∧
    (∀ fault, refusal.fault? = some fault → fault.isOfLevel = true →
      (∃ old, s.orders.find? oldId = some old ∧ s.orders.find? newId = none ∧
        s'.orders.find? oldId = none ∧
        s'.orders.find? newId = some ⟨newId, i, old.side, price, quantity⟩) ∧
      ((∀ side, (s'.book i).onSide side = (s.book i).onSide side) ↔
        ∀ side p requested available,
          fault ≠ .levelOverflow side p requested available)) ∧
    (c.executionPriceMode = .restingPrice → ∀ side p requested available,
      refusal.fault? ≠ some (.levelShortage side p requested available)) := by
  obtain ⟨hstore, -, -⟩ := Dispatcher.run_of_make hd calls
  have hs : (d.run calls).1.store.Sound := hstore ▸ Store.sound_empty.run c.rules calls
  have hmoves := Dispatcher.process_moves hs e latency
  rw [ho] at hmoves
  rcases hmoves.of_refused_replacement he with
    ⟨hnone, hsame⟩ | ⟨fault, desk, hfault, hopen, hdesk, horders, hlevels⟩
  · rw [hnone]
    exact ⟨iff_of_true (hsame ▸ ⟨rfl, fun _ => rfl⟩) nofun, nofun, nofun⟩
  have hchanged : (∀ side, ((((d.run calls).1.process e latency).1.store.book i).onSide side) =
      ((d.run calls).1.store.book i).onSide side) ↔
        ∀ side p requested available, fault ≠ .levelOverflow side p requested available := by
    rw [← hdesk.levels_eq_iff hs.orders]
    exact forall_congr' fun side => by rw [hlevels side]
  simp only [hfault, Option.some.injEq, forall_eq']
  refine ⟨⟨fun h => ?_, fun h => ?_⟩, fun h => ⟨?_, hchanged⟩, fun hmode => ?_⟩
  · exact hdesk.orders_eq_iff.1 (horders.symm.trans h.1)
  · refine ⟨horders.trans (hdesk.orders_eq_iff.2 h), hchanged.2 ?_⟩
    rintro side p requested available rfl
    cases h
  · obtain ⟨old, hlive, hfree, hgone, hnew⟩ := hdesk.replaced_of_level h
    rw [hs.book i] at hnew
    exact ⟨old, hlive, hfree, horders ▸ hgone, horders ▸ hnew⟩
  · have hb : (d.run calls).1.store.Balanced :=
      hstore ▸ Store.balanced_empty.run hmode Store.sound_empty calls
    exact fun side p requested available h =>
      hdesk.ne_levelShortage hs.orders (hb i hopen) side p requested available (Option.some.inj h)

/-- A level that holds as many shares as it can, and an order on the level below. -/
def fullLevel : List Call :=
  [.process ⟨default, .addOrder ⟨1, ⟨1⟩, .buy, ⟨100⟩, ⟨18446744073709551615⟩⟩⟩ 0,
    .process ⟨default, .addOrder ⟨2, ⟨1⟩, .buy, ⟨99⟩, ⟨5⟩⟩⟩ 0]

/-- Moves the order onto the full level. -/
def ontoFullLevel : Event := ⟨default, .orderReplace ⟨1⟩ 2 3 ⟨100⟩ ⟨7⟩⟩

theorem run_replace_refused_fullLevel :
    ∃ d, Dispatcher.make .standard = .ok d ∧
      let s := (d.run fullLevel).1.store
      let s' := ((d.run fullLevel).1.process ontoFullLevel 0).1.store
      ((d.run fullLevel).1.process ontoFullLevel 0).2.outcome =
        .error (.integrity ⟨1⟩ 0 0 (.levelOverflow .buy ⟨100⟩ ⟨7⟩ ⟨18446744073709551615⟩)) ∧
      ¬ s.Unchanged ⟨1⟩ s' ∧ s'.orders.find? 2 = none ∧ (s'.orders.find? 3).isSome ∧
      ¬ ∀ side, (s'.book ⟨1⟩).onSide side = (s.book ⟨1⟩).onSide side := by
  obtain ⟨d, hd⟩ : ∃ d, Dispatcher.make .standard = .ok d := ⟨_, rfl⟩
  have hprocess : ((d.run fullLevel).1.process ontoFullLevel 0).2.outcome =
      ((Store.empty.run ⟨.eventPrice, false⟩ fullLevel).1.apply ⟨.eventPrice, false⟩
        ontoFullLevel).2 :=
    (Dispatcher.process_of_make hd fullLevel ontoFullLevel 0).2
  have hrefused : ((d.run fullLevel).1.process ontoFullLevel 0).2.outcome =
      .error (.integrity ⟨1⟩ 0 0 (.levelOverflow .buy ⟨100⟩ ⟨7⟩ ⟨18446744073709551615⟩)) := by
    rw [hprocess]
    cbv
  obtain ⟨hunchanged, hlevel, -⟩ := run_replace_refused hd fullLevel rfl 0 hrefused
  obtain ⟨⟨old, -, -, hgone, hnew⟩, hlevels⟩ := hlevel _ rfl rfl
  refine ⟨d, hd, hrefused, fun h => ?_, hgone, hnew ▸ rfl, fun h => ?_⟩
  · cases hunchanged.1 h _ rfl
  · exact hlevels.1 h _ _ _ _ rfl

/-- Two orders at two prices. The first one is executed at the price of the second one, whose
level is then short of shares. -/
def shortLevel : List Call :=
  [.process ⟨default, .addOrder ⟨1, ⟨1⟩, .buy, ⟨100⟩, ⟨10⟩⟩⟩ 0,
    .process ⟨default, .addOrder ⟨2, ⟨1⟩, .buy, ⟨101⟩, ⟨10⟩⟩⟩ 0,
    .process ⟨default, .orderExecutedWithPrice ⟨1⟩ 1 ⟨4⟩ 0 ⟨101⟩ true⟩ 0]

/-- Moves the second order away. -/
def offShortLevel : Event := ⟨default, .orderReplace ⟨1⟩ 2 9 ⟨103⟩ ⟨5⟩⟩

/-- A refused replacement need not leave everything as it was. -/
theorem replace_not_atomic :
    ¬ ∀ (c : EngineConfig) (d : Dispatcher), Dispatcher.make c = .ok d →
      ∀ (calls : List Call) (e : Event) (i : Instrument) (oldId newId : OrderId) (price : Price)
        (quantity : Quantity) (latency : UInt64) (refusal : Refusal),
        e.message = .orderReplace i oldId newId price quantity →
        ((d.run calls).1.process e latency).2.outcome = .error refusal →
        (d.run calls).1.store.Unchanged i ((d.run calls).1.process e latency).1.store := by
  intro hatomic
  obtain ⟨d, hd⟩ : ∃ d, Dispatcher.make .standard = .ok d := ⟨_, rfl⟩
  have hstore : (d.run shortLevel).1.store =
      (Store.empty.run ⟨.eventPrice, false⟩ shortLevel).1 :=
    (Dispatcher.run_of_make hd shortLevel).1
  have hprocess :
      ((d.run shortLevel).1.process offShortLevel 0).1.store =
          ((Store.empty.run ⟨.eventPrice, false⟩ shortLevel).1.apply ⟨.eventPrice, false⟩
            offShortLevel).1 ∧
        ((d.run shortLevel).1.process offShortLevel 0).2.outcome =
          ((Store.empty.run ⟨.eventPrice, false⟩ shortLevel).1.apply ⟨.eventPrice, false⟩
            offShortLevel).2 :=
    Dispatcher.process_of_make hd shortLevel offShortLevel 0
  have hrefused : ((d.run shortLevel).1.process offShortLevel 0).2.outcome =
      .error (.integrity ⟨1⟩ 0 0 (.levelShortage .buy ⟨101⟩ ⟨10⟩ ⟨6⟩)) := by
    rw [hprocess.2]
    cbv
  have hlive : (d.run shortLevel).1.store.orders.find? 2 =
      some ⟨2, ⟨1⟩, .buy, ⟨101⟩, ⟨10⟩⟩ := by
    rw [hstore]
    cbv
  have hgone : ((d.run shortLevel).1.process offShortLevel 0).1.store.orders.find? 2 = none := by
    rw [hprocess.1]
    cbv
  obtain ⟨horders, -⟩ := hatomic .standard d hd shortLevel offShortLevel ⟨1⟩ 2 9 ⟨103⟩ ⟨5⟩ 0 _ rfl
    hrefused
  rw [horders, hlive] at hgone
  cases hgone

end TopOfBook
