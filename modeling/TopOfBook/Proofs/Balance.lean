import Mathlib.Data.List.Permutation
import Std.Data.TreeMap
import TopOfBook.Proofs.Gauges

/-! The live orders alone determine the books. Where executions reduce the level at which an
order rests, every level of an open book holds the shares of the orders that rest there, through
all events and resets. A fault can leave the two apart, but then the book is corrupted, and a
reset empties it together with its orders. -/

namespace TopOfBook

/-! ### The book that live orders make up -/

/-- The price that no other one beats. -/
def Side.bestOf (s : Side) (prices : List Price) : Option Price :=
  prices.find? fun p => prices.all fun q => ¬ s.beats q p

theorem Side.bestOf_eq_some {s : Side} {p : Price} {prices : List Price} (hp : p ∈ prices)
    (hbest : ∀ q ∈ prices, q ≠ p → s.beats p q) : s.bestOf prices = some p := by
  have hunbeaten : (prices.all fun q => ¬ s.beats q p) = true := by
    rw [List.all_eq_true]
    intro q hq
    rw [decide_eq_true_eq]
    by_cases hqp : q = p
    · exact hqp ▸ beats_irrefl s q
    · exact beats_asymm (hbest q hq hqp)
  unfold bestOf
  cases hf : prices.find? fun p => prices.all fun q => ¬ s.beats q p with
  | none => exact absurd hunbeaten (List.find?_eq_none.1 hf p hp)
  | some q =>
    have hq := List.mem_of_find?_eq_some hf
    have hqp : ¬ s.beats p q := by
      have h := List.find?_some hf
      rw [List.all_eq_true] at h
      exact of_decide_eq_true (h p hp)
    rw [Option.some.injEq]
    by_contra hne
    exact hqp (hbest q hq hne)

namespace OrderTable

variable {t : OrderTable} {i : Instrument} {side : Side} {p : Price}

/-- Whether an order rests at a price of a side of an instrument. -/
def restsAt (i : Instrument) (side : Side) (p : Price) (o : Order) : Bool :=
  o.instrument = i ∧ o.side = side ∧ o.price = p

def restingAt (t : OrderTable) (i : Instrument) (side : Side) (p : Price) : List Order :=
  t.toList.filter (restsAt i side p)

/-- The shares of all orders that rest at a price, `none` when there are no such orders. -/
def level? (t : OrderTable) (i : Instrument) (side : Side) (p : Price) : Option Nat :=
  match t.restingAt i side p with
  | [] => none
  | orders => some (Quantity.total (orders.map Order.quantity))

/-- The best price of the orders on a side, and all the shares there. -/
def best? (t : OrderTable) (i : Instrument) (side : Side) : Option (Price × Nat) := do
  let p ← side.bestOf ((t.onSide i side).map Order.price)
  let shares ← t.level? i side p
  some (p, shares)

/-- Live orders have shares, so there are orders at a price exactly where there are shares. -/
theorem level?_eq (ht : t.Sound) (i : Instrument) (side : Side) (p : Price) :
    t.level? i side p =
      if t.sharesWhere (restsAt i side p) = 0 then none
      else some (t.sharesWhere (restsAt i side p)) := by
  unfold level? restingAt
  cases hl : t.toList.filter (restsAt i side p) with
  | nil => simp [sharesWhere, hl]
  | cons o rest =>
    have ho := List.mem_filter.1 (hl ▸ List.mem_cons_self : o ∈ t.toList.filter (restsAt i side p))
    have hlive := ht.mem_toList.1 ho.1
    have hpos := ht.positive o.id o hlive
    have hle := le_sharesWhere hlive ho.2
    rw [if_neg (by omega), sharesWhere, hl]

theorem mem_prices : p ∈ (t.onSide i side).map Order.price ↔
    (t.level? i side p).isSome := by
  have h : (t.level? i side p).isSome ↔ (t.restingAt i side p).isEmpty = false := by
    unfold level?
    cases t.restingAt i side p <;> simp
  rw [h, List.isEmpty_eq_false_iff_exists_mem, List.mem_map]
  simp only [onSide, restingAt, restsAt, List.mem_filter, decide_eq_true_eq, and_assoc]

end OrderTable

/-- A side whose levels are those of the live orders has their best price. -/
theorem BookSide.best?_eq_of_level? {side : Side} {b : BookSide side} {t : OrderTable}
    {i : Instrument} (h : ∀ p, (b.quantityAt? p).map Quantity.toNat = t.level? i side p) :
    (b.best?.map fun l => (l.price, l.quantity.toNat)) = t.best? i side := by
  have hprices : ∀ p, p ∈ (t.onSide i side).map Order.price ↔ (b.quantityAt? p).isSome := by
    intro p
    rw [OrderTable.mem_prices, ← h, Option.isSome_map]
  unfold OrderTable.best?
  cases hb : b.best? with
  | none =>
    have hnil : (t.onSide i side).map Order.price = [] := by
      apply List.eq_nil_iff_forall_not_mem.2
      intro p hp
      obtain ⟨q, hq⟩ := Option.isSome_iff_exists.1 ((hprices p).1 hp)
      rw [best?_eq_head?, List.head?_eq_none_iff] at hb
      exact absurd (mem_levels (l := ⟨p, q⟩).2 hq) (hb ▸ List.not_mem_nil)
    rw [hnil]
    rfl
  | some l =>
    obtain ⟨hl, hbest⟩ := best?_eq_some_iff.1 hb
    have hbestOf : side.bestOf ((t.onSide i side).map Order.price) = some l.price :=
      Side.bestOf_eq_some ((hprices _).2 (by simp [hl])) fun q hq => hbest q ((hprices q).1 hq)
    rw [hbestOf]
    simp [← h, hl]

/-! ### What keeps the two together -/

/-- The levels of the book hold the shares of the live orders. -/
def Desk.Balanced (d : Desk) : Prop :=
  ∀ side p, d.book.sharesAt side p =
    d.orders.sharesWhere (OrderTable.restsAt d.book.instrument side p)

/-- A level holds at least the shares of each order that rests there. -/
theorem Desk.Balanced.le_sharesAt {d : Desk} (hb : d.Balanced) {id : OrderId} {o : Order}
    (hlive : d.orders.find? id = some o) (hown : o.instrument = d.book.instrument) :
    o.quantity.toNat ≤ d.book.sharesAt o.side o.price := by
  rw [hb o.side o.price]
  exact OrderTable.le_sharesWhere hlive (decide_eq_true ⟨hown, rfl, rfl⟩)

/-- The shares at one price of a side. -/
def Gauge.level (side : Side) (p : Price) : Gauge where
  covers s q := s = side ∧ q = p
  shares b := b.sharesAt side p
  empty i := Book.sharesAt_empty i side p
  seen h := by rw [Book.sharesAt, h, Book.sharesAt]
  add {b c s q _ _} h := by
    rw [Book.sharesAt_add h]
    simp only [eq_comm (a := s), eq_comm (a := q)]
  reduce {b c s q _ _} h := by
    rw [← Book.sharesAt_reduce h side p]
    simp only [eq_comm (a := s), eq_comm (a := q)]

theorem Desk.balanced_lasting : Desk.Lasting .restingPrice Desk.Balanced :=
  .all fun side => .all fun p =>
    (Gauge.level side p).lasting (Gauge.level side p).follows_restingPrice

namespace Store

variable {s : Store} {rules : Rules} {i : Instrument}

/-- The levels of every open book hold the shares of the live orders. -/
def Balanced (s : Store) : Prop :=
  ∀ i, (s.book i).isCorrupted = false → Desk.Balanced ⟨s.book i, s.orders⟩

theorem balanced_empty : empty.Balanced := keeps_empty Desk.balanced_lasting

theorem Balanced.run (hmode : rules.executionPriceMode = .restingPrice) (hs : s.Sound)
    (hb : s.Balanced) (calls : List Call) : (s.run rules calls).1.Balanced :=
  Keeps.run (hmode.symm ▸ Desk.balanced_lasting) hs hb calls

/-- The levels of an open book are those that the live orders make up. -/
theorem Balanced.quantityAt? (hs : s.Sound) (hb : s.Balanced)
    (hi : (s.book i).isCorrupted = false) (side : Side) (p : Price) :
    (((s.book i).onSide side).quantityAt? p).map Quantity.toNat = s.orders.level? i side p := by
  have hlevel : ((s.book i).onSide side).sharesAt p =
      s.orders.sharesWhere (OrderTable.restsAt i side p) := by
    have h := hb i hi side p
    rwa [hs.book i] at h
  have hfilled := hs.book_filled i side
  rw [OrderTable.level?_eq hs.orders, ← hlevel]
  unfold BookSide.sharesAt
  cases hq : ((s.book i).onSide side).quantityAt? p with
  | none => rfl
  | some q =>
    exact (if_neg (Nat.ne_of_gt (hfilled p q hq))).symm

end Store

/-- Where executions reduce the level at which an order rests, the book of an instrument that is
not corrupted is made up of the live orders: the shares at each price, and so the inside. -/
theorem run_book_eq_live_orders {c : EngineConfig} {d : Dispatcher}
    (hmode : c.executionPriceMode = .restingPrice) (hd : Dispatcher.make c = .ok d)
    (calls : List Call) (i : Instrument)
    (hi : ((d.run calls).1.store.book i).isCorrupted = false) :
    let s := (d.run calls).1.store
    let inside := (s.inside? i).getD .empty
    (∀ side p, (((s.book i).onSide side).quantityAt? p).map Quantity.toNat =
      s.orders.level? i side p) ∧
    (inside.bid.map fun l => (l.price, l.quantity.toNat)) = s.orders.best? i .buy ∧
    (inside.ask.map fun l => (l.price, l.quantity.toNat)) = s.orders.best? i .sell ∧
    ∀ id o, s.orders.find? id = some o → o.instrument = i → o.id = id ∧ 0 < o.quantity.toNat := by
  rw [(Dispatcher.run_of_make hd calls).1] at hi ⊢
  have hs := Store.sound_empty.run c.rules calls
  have hb : (Store.empty.run c.rules calls).1.Balanced :=
    Store.balanced_empty.run hmode Store.sound_empty calls
  have hlevels := hb.quantityAt? hs hi
  refine ⟨hlevels, ?_, ?_, fun id o ho _ => ⟨hs.orders.own id o ho, hs.orders.positive id o ho⟩⟩
  · rw [Store.inside?_getD]
    exact BookSide.best?_eq_of_level? (hlevels .buy)
  · rw [Store.inside?_getD]
    exact BookSide.best?_eq_of_level? (hlevels .sell)

/-- Two bids at one price, of which one is partly executed at another price. Deleting that one
for another instrument corrupts the other instrument only. -/
def partialFill : List Call :=
  [.process ⟨default, .addOrder ⟨1, ⟨1⟩, .buy, ⟨10⟩, ⟨5⟩⟩⟩ 0,
    .process ⟨default, .addOrder ⟨2, ⟨1⟩, .buy, ⟨10⟩, ⟨7⟩⟩⟩ 0,
    .process ⟨default, .orderExecutedWithPrice ⟨1⟩ 1 ⟨3⟩ 0 ⟨99⟩ true⟩ 0,
    .process ⟨default, .orderDelete ⟨2⟩ 1⟩ 0]

theorem run_book_eq_live_orders_partialFill :
    ∃ d,
      Dispatcher.make { EngineConfig.standard with executionPriceMode := .restingPrice } = .ok d ∧
      ((d.run partialFill).1.store.book ⟨1⟩).isCorrupted = false ∧
      ((((d.run partialFill).1.store.inside? ⟨1⟩).getD .empty).bid.map
        fun l => (l.price, l.quantity.toNat)) = some (⟨10⟩, 9) := by
  obtain ⟨d, hd⟩ : ∃ d, Dispatcher.make
      { EngineConfig.standard with executionPriceMode := .restingPrice } = .ok d := ⟨_, rfl⟩
  have hstore : (d.run partialFill).1.store =
      (Store.empty.run ⟨.restingPrice, false⟩ partialFill).1 :=
    (Dispatcher.run_of_make hd partialFill).1
  have hi : ((d.run partialFill).1.store.book ⟨1⟩).isCorrupted = false := by
    rw [hstore]
    cbv
  refine ⟨d, hd, hi, (run_book_eq_live_orders rfl hd partialFill ⟨1⟩ hi).2.1.trans ?_⟩
  rw [hstore]
  cbv

end TopOfBook
