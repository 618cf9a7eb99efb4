import TopOfBook.Proofs.Publication

/-! An instrument told in shares: how many there are at each price of both sides, and which orders
are live. Nothing else decides whether an event goes through and what it leads to. The levels, the
best ones among them and the inside published last follow from the shares, so two open books with
the same shares are the same book. -/

namespace TopOfBook

/-- The number of shares at each price of both sides. -/
abbrev Shares := Side → Price → Nat

namespace Shares

/-- With so many shares more at one price. -/
def plus (f : Shares) (side : Side) (price : Price) (n : Nat) : Shares :=
  fun s p => f s p + if s = side ∧ p = price then n else 0

variable {f g : Shares} {side : Side} {price : Price} {n : Nat}

@[simp] theorem plus_zero (f : Shares) (side : Side) (price : Price) :
    f.plus side price 0 = f := by
  funext s p
  simp [plus]

theorem plus_plus (f : Shares) (side : Side) (price : Price) (m n : Nat) :
    (f.plus side price m).plus side price n = f.plus side price (m + n) := by
  funext s p
  unfold plus
  split <;> omega

theorem plus_right_cancel (h : f.plus side price n = g.plus side price n) : f = g := by
  funext s p
  exact Nat.add_right_cancel (congrFun (congrFun h s) p)

theorem le_of_plus_eq (h : f.plus side price n = g) : n ≤ g side price := by
  rw [← h, plus, if_pos ⟨rfl, rfl⟩]
  omega

end Shares

structure Interest where
  shares : Shares
  orders : OrderTable

namespace Interest

variable {i : Instrument} {x y z : Interest} {a : Action} {o : Order}

/-- With another live order, and its shares at its price. -/
def enter (x : Interest) (o : Order) : Interest :=
  ⟨x.shares.plus o.side o.price o.quantity.toNat, x.orders.put o.id o⟩

/-- The actions that go through for an instrument, and what each of them leads to. -/
inductive Permits (i : Instrument) (x : Interest) : Action → Interest → Prop
  | idle : Permits i x .idle x
  | add (o : Order) (hquantity : 0 < o.quantity.toNat) (hfree : x.orders.find? o.id = none)
      (hroom : x.shares o.side o.price + o.quantity.toNat ≤ Quantity.maximum) :
      Permits i x (.add o) (x.enter o)
  | take (id : OrderId) (quantity : Option Quantity) (price : Option Price) (o : Order)
      (rest : Quantity) (shares : Shares) (hlive : x.orders.find? id = some o)
      (hown : o.instrument = i)
      (hrest : rest.toNat + (quantity.getD o.quantity).toNat = o.quantity.toNat)
      (hshares : shares.plus o.side (price.getD o.price) (quantity.getD o.quantity).toNat =
        x.shares) :
      Permits i x (.take id quantity price) ⟨shares, x.orders.put id { o with quantity := rest }⟩
  | replace (oldId newId : OrderId) (price : Price) (quantity : Quantity) (old : Order)
      (shares : Shares) (hlive : x.orders.find? oldId = some old) (hown : old.instrument = i)
      (hfree : x.orders.find? newId = none) (hquantity : 0 < quantity.toNat)
      (hshares : shares.plus old.side old.price old.quantity.toNat = x.shares)
      (hroom : shares old.side price + quantity.toNat ≤ Quantity.maximum) :
      Permits i x (.replace oldId newId price quantity)
        (enter ⟨shares, x.orders.put oldId { old with quantity := .zero }⟩
          ⟨newId, old.instrument, old.side, price, quantity⟩)

/-- Shares of a live order are permitted to go when the order and the level have as many. -/
theorem Permits.of_take {id : OrderId} {quantity : Option Quantity} {price : Option Price}
    (h : x.Permits i (.take id quantity price) y) (hlive : x.orders.find? id = some o) :
    o.instrument = i ∧ ∃ rest : Quantity,
      rest.toNat + (quantity.getD o.quantity).toNat = o.quantity.toNat ∧ ∃ shares : Shares,
        shares.plus o.side (price.getD o.price) (quantity.getD o.quantity).toNat = x.shares ∧
          y = ⟨shares, x.orders.put id { o with quantity := rest }⟩ := by
  cases h with
  | take _ _ _ o' rest shares hlive' hown hrest hshares =>
    obtain rfl : o = o' := Option.some.inj (hlive.symm.trans hlive')
    exact ⟨hown, rest, hrest, shares, hshares, rfl⟩

/-- A live order is permitted to be replaced when its level has its shares, and the new one's has
room once they are gone. -/
theorem Permits.of_replace {oldId newId : OrderId} {price : Price} {quantity : Quantity}
    (h : x.Permits i (.replace oldId newId price quantity) y)
    (hlive : x.orders.find? oldId = some o) :
    o.instrument = i ∧ x.orders.find? newId = none ∧ 0 < quantity.toNat ∧ ∃ shares : Shares,
      shares.plus o.side o.price o.quantity.toNat = x.shares ∧
        shares o.side price + quantity.toNat ≤ Quantity.maximum ∧
        y = enter ⟨shares, x.orders.put oldId { o with quantity := .zero }⟩
          ⟨newId, o.instrument, o.side, price, quantity⟩ := by
  cases h with
  | replace _ _ _ _ old shares hlive' hown hfree hquantity hshares hroom =>
    obtain rfl : o = old := Option.some.inj (hlive.symm.trans hlive')
    exact ⟨hown, hfree, hquantity, shares, hshares, hroom, rfl⟩

/-- An action leads to one interest only. -/
theorem Permits.unique (h : x.Permits i a y) (h' : x.Permits i a z) : y = z := by
  cases h with
  | idle =>
    cases h'
    rfl
  | add =>
    cases h'
    rfl
  | take id quantity price o rest shares hlive _ hrest hshares =>
    obtain ⟨-, rest', hrest', shares', hshares', rfl⟩ := h'.of_take hlive
    obtain rfl : rest = rest' := Quantity.toNat_inj (by omega)
    rw [Shares.plus_right_cancel (hshares.trans hshares'.symm)]
  | replace _ _ _ _ old shares hlive _ _ _ hshares =>
    obtain ⟨-, -, -, shares', hshares', -, rfl⟩ := h'.of_replace hlive
    rw [Shares.plus_right_cancel (hshares.trans hshares'.symm)]

end Interest

/-! ### Books -/

namespace Book

variable {b c : Book} {side : Side} {price : Price} {quantity : Quantity} {touched : Bool}

theorem sharesAt_of_add (h : b.add side price quantity = .ok (c, touched)) :
    c.sharesAt = Shares.plus b.sharesAt side price quantity.toNat := by
  funext s p
  exact sharesAt_add h s p

theorem sharesAt_of_reduce (h : b.reduce side price quantity = .ok (c, touched)) :
    Shares.plus c.sharesAt side price quantity.toNat = b.sharesAt := by
  funext s p
  exact sharesAt_reduce h s p

end Book

/-! ### Desks -/

namespace Desk

variable {d : Desk}

def interest (d : Desk) : Interest := ⟨d.book.sharesAt, d.orders⟩

/-- The action goes through if and only if the interest permits it, and leads to the interest
due. -/
def Decides (d : Desk) (a : Action) : Desk × Except BookFault Effect → Prop
  | (d', .ok _) => d.interest.Permits d.book.instrument a d'.interest
  | (_, .error _) => ∀ y, ¬ d.interest.Permits d.book.instrument a y

theorem add_decides (d : Desk) (o : Order) : d.Decides (.add o) (d.add o) := by
  unfold add
  cases hr : d.orders.register o with
  | error fault =>
    intro y h
    cases h with
    | add _ hquantity hfree =>
      have hok : d.orders.register o = .ok (d.orders.put o.id o) :=
        OrderTable.register_eq_ok_iff.2 ⟨Quantity.isZero_eq_false_iff.2 hquantity, hfree, rfl⟩
      rw [hr] at hok
      cases hok
  | ok orders =>
    obtain ⟨hquantity, hfree, rfl⟩ := OrderTable.register_eq_ok_iff.1 hr
    rw [Quantity.isZero_eq_false_iff] at hquantity
    dsimp only
    cases hb : d.book.add o.side o.price o.quantity with
    | error fault =>
      intro y h
      cases h with
      | add _ _ _ hroom =>
        have hfull := (Book.add_eq_error_iff.1 hb).1
        exact absurd hroom (Nat.not_le.2 hfull)
    | ok result =>
      have hpermits := Interest.Permits.add (i := d.book.instrument) (x := d.interest) o hquantity
        hfree (Book.room_of_add hb)
      rw [Interest.enter, interest, ← Book.sharesAt_of_add hb] at hpermits
      exact hpermits

theorem reduce_decides (d : Desk) (id : OrderId) (quantity : Option Quantity)
    (price : Option Price) : d.Decides (.take id quantity price) (d.reduce id quantity price) := by
  cases hl : d.orders.find? id with
  | none =>
    rw [reduce, OrderTable.lookup, hl]
    intro y h
    cases h with
    | take _ _ _ o _ _ hlive =>
      rw [interest, hl] at hlive
      cases hlive
  | some o =>
    by_cases hown : o.instrument = d.book.instrument
    · rw [reduce_of_live hl hown]
      cases ht : d.orders.take id quantity with
      | error fault =>
        intro y h
        obtain ⟨-, rest, hrest, -⟩ := h.of_take hl
        rw [(OrderTable.take_eq_ok_iff hl).2 ⟨rest, hrest, rfl, rfl⟩] at ht
        cases ht
      | ok result =>
        obtain ⟨rest, hrest, htable, hreduction⟩ := (OrderTable.take_eq_ok_iff hl).1 ht
        have hreduced : result.2.reduced = quantity.getD o.quantity := by rw [hreduction]
        dsimp only
        rw [htable, hreduced]
        split
        · -- without shares to come off, the level is not looked at, and need not be
          rename_i hz
          rw [Quantity.isZero_iff] at hz
          refine .take id quantity price o rest d.book.sharesAt hl hown hrest ?_
          rw [hz, Shares.plus_zero]
          rfl
        · rename_i hsome
          rw [Bool.not_eq_true, Quantity.isZero_eq_false_iff] at hsome
          cases hb : d.book.reduce o.side (price.getD o.price) (quantity.getD o.quantity) with
          | error fault =>
            have hshort := Book.short_of_reduce hb hsome
            intro y h
            obtain ⟨-, -, -, shares, hshares, -⟩ := h.of_take hl
            exact absurd (Shares.le_of_plus_eq hshares) (Nat.not_le.2 hshort)
          | ok books =>
            exact .take id quantity price o rest books.1.sharesAt hl hown hrest
              (Book.sharesAt_of_reduce hb)
    · rw [reduce, OrderTable.lookup, hl]
      dsimp only
      rw [if_pos hown]
      exact fun y h => hown (h.of_take hl).1

theorem replace_decides (hd : d.orders.Sound) (oldId newId : OrderId) (price : Price)
    (quantity : Quantity) :
    d.Decides (.replace oldId newId price quantity) (d.replace oldId newId price quantity) := by
  cases hl : d.orders.find? oldId with
  | none =>
    rw [replace, OrderTable.lookup, hl]
    intro y h
    cases h with
    | replace _ _ _ _ old _ hlive =>
      rw [interest, hl] at hlive
      cases hlive
  | some old =>
    cases hf : d.replaceFault? old newId quantity with
    | some fault =>
      rw [replace, OrderTable.lookup, hl]
      dsimp only
      rw [hf]
      intro y h
      obtain ⟨hown, hfree, hquantity, -⟩ := h.of_replace hl
      rw [replaceFault?_eq_none_iff.2
        ⟨hown, hfree, Quantity.isZero_eq_false_iff.2 hquantity⟩] at hf
      cases hf
    | none =>
      obtain ⟨hown, hfree, hquantity⟩ := replaceFault?_eq_none_iff.1 hf
      rw [Quantity.isZero_eq_false_iff] at hquantity
      rw [replace_of_checked hd hl hf]
      dsimp only
      cases hb : d.book.reduce old.side old.price old.quantity with
      | error fault =>
        have hshort := Book.short_of_reduce hb (hd.positive oldId old hl)
        intro y h
        obtain ⟨-, -, -, shares, hshares, -⟩ := h.of_replace hl
        exact absurd (Shares.le_of_plus_eq hshares) (Nat.not_le.2 hshort)
      | ok without =>
        have hwithout := Book.sharesAt_of_reduce hb
        dsimp only
        cases ha : without.1.add old.side price quantity with
        | error fault =>
          have hfull := (Book.add_eq_error_iff.1 ha).1
          intro y h
          obtain ⟨-, -, -, shares, hshares, hroom, -⟩ := h.of_replace hl
          rw [Shares.plus_right_cancel (hshares.trans hwithout.symm)] at hroom
          exact absurd hroom (Nat.not_le.2 hfull)
        | ok books =>
          have hpermits := Interest.Permits.replace (x := d.interest) oldId newId price quantity old
            without.1.sharesAt hl hown hfree hquantity hwithout (Book.room_of_add ha)
          rw [Interest.enter, ← Book.sharesAt_of_add ha] at hpermits
          exact hpermits

theorem act_decides (hd : d.orders.Sound) (a : Action) : d.Decides a (d.act a) := by
  cases a with
  | idle => exact .idle
  | add order => exact add_decides d order
  | take id quantity price => exact reduce_decides d id quantity price
  | replace oldId newId price quantity => exact replace_decides hd oldId newId price quantity

end Desk

/-! ### Stores -/

namespace Store

variable {rules : Rules} {s s' s'' : Store} {e : Event} {i : Instrument} {y : Interest}

def interest (s : Store) (i : Instrument) : Interest := ⟨(s.book i).sharesAt, s.orders⟩

/-- From one store to another, an instrument was and stays open and has a book afterwards, and the
other instruments keep theirs. -/
structure Through (i : Instrument) (s s' : Store) : Prop where
  opened : (s.book i).isCorrupted = false
  stays : (s'.book i).isCorrupted = false
  seen : s'.book? i = some (s'.book i)
  others : ∀ j, j ≠ i → s'.book? j = s.book? j

theorem Through.trans (h : Through i s s') (h' : Through i s' s'') : Through i s s'' where
  opened := h.opened
  stays := h'.stays
  seen := h'.seen
  others j hj := (h'.others j hj).trans (h.others j hj)

/-- An open book is known from its shares. -/
theorem book_eq_of_interest (hs : s.Sound) (hs' : s'.Sound) (hc : s.Current) (hc' : s'.Current)
    (hopen : (s.book i).isCorrupted = false) (hopen' : (s'.book i).isCorrupted = false)
    (h : s'.interest i = s.interest i) : s'.book i = s.book i := by
  have hsides : ∀ side, (s'.book i).onSide side = (s.book i).onSide side :=
    (hs.book_filled i).onSide_eq_of_sharesAt (hs'.book_filled i) fun side p =>
      congrFun (congrFun (congrArg Interest.shares h) side) p
  have hmarks : Book.SameMarks (s.book i) (s'.book i) := by
    constructor
    · rw [hs.book, hs'.book]
    · rw [hc i hopen, hc' i hopen', Book.inside_eq_of_onSide hsides]
    · rw [Book.isCorrupted_eq_false_iff.1 hopen, Book.isCorrupted_eq_false_iff.1 hopen']
  exact hmarks.eq_of_onSide hsides

/-- Where the shares and the orders are those of the beginning, so are all books, but for an empty
one that is there for an instrument without a book. -/
theorem Through.restores (h : Through i s s') (hs : s.Sound) (hs' : s'.Sound) (hc : s.Current)
    (hc' : s'.Current) (hsame : s'.interest i = s.interest i) (j : Instrument) :
    s'.book? j = if j = i then some (s.book j) else s.book? j := by
  split
  · rw [‹j = i›, h.seen, book_eq_of_interest hs hs' hc hc' h.opened h.stays hsame]
  · exact h.others j ‹_›

/-- Two stores that the same one leads to are the same with the same shares and orders. -/
theorem Through.eq_of_interest (h : Through i s s') (h' : Through i s s'') (hs' : s'.Sound)
    (hs'' : s''.Sound) (hc' : s'.Current) (hc'' : s''.Current)
    (hsame : s''.interest i = s'.interest i) : s'' = s' := by
  refine ext_book? (fun j => ?_) (congrArg Interest.orders hsame)
  by_cases hj : j = i
  · rw [hj, h.seen, h'.seen,
      book_eq_of_interest hs' hs'' hc' hc'' h.stays h'.stays hsame]
  · rw [h.others j hj, h'.others j hj]

/-- The event goes through if and only if the shares and the orders permit it. -/
def Decides (rules : Rules) (s : Store) (e : Event) (i : Instrument) : Store × Outcome → Prop
  | (s', .ok _) => Through i s s' ∧
      (s.interest i).Permits i (e.message.action rules.executionPriceMode) (s'.interest i)
  | (_, .error _) =>
      ∀ y, ¬ (s.interest i).Permits i (e.message.action rules.executionPriceMode) y

theorem apply_decides (rules : Rules) (hs : s.Sound) (hi : e.instrument? = some i)
    (hopen : (s.book i).isCorrupted = false) : Decides rules s e i (s.apply rules e) := by
  have hdecides := Desk.act_decides (d := ⟨s.book i, s.orders⟩) hs.orders
    (e.message.action rules.executionPriceMode)
  have hmoves := Desk.act_moves (d := ⟨s.book i, s.orders⟩) hs.orders
    (e.message.action rules.executionPriceMode)
  rw [apply_of_open rules hi hopen]
  cases hact : (Desk.mk (s.book i) s.orders).act (e.message.action rules.executionPriceMode) with
  | mk d r =>
    rw [hact] at hdecides hmoves
    cases r with
    | error fault =>
      -- the desk asks for the instrument of its book, which is the one it stands under
      change ∀ y, ¬ (s.interest i).Permits (s.book i).instrument _ y at hdecides
      rwa [hs.book i] at hdecides
    | ok effect =>
      change (s.interest i).Permits (s.book i).instrument _ d.interest at hdecides
      rw [hs.book i] at hdecides
      have hbook : (s.set i (publish rules d.book effect).1 d.orders).book i =
          (publish rules d.book effect).1 := by rw [book_set, if_pos rfl]
      have hinterest :
          (s.set i (publish rules d.book effect).1 d.orders).interest i = d.interest := by
        have hshares : (publish rules d.book effect).1.sharesAt = d.book.sharesAt := by
          funext side p
          rw [Book.sharesAt, onSide_publish, ← Book.sharesAt]
        rw [interest, hbook, hshares]
        rfl
      refine ⟨⟨hopen, ?_, ?_, fun j hj => ?_⟩, hinterest ▸ hdecides⟩
      · rw [hbook, Book.isCorrupted, corruption_publish, hmoves.sameMarks.corruption]
        exact hopen
      · rw [hbook, book?_set, if_pos rfl]
      · rw [book?_set, if_neg hj]

/-- An event that goes through was permitted, and leads where it should. -/
theorem through_of_apply (hs : s.Sound) (hc : s.Current) (hi : e.instrument? = some i)
    {u : Option InsideUpdate} (h : (s.apply rules e).2 = .ok u) :
    Through i s (s.apply rules e).1 ∧ (s.interest i).Permits i
      (e.message.action rules.executionPriceMode) ((s.apply rules e).1.interest i) ∧
      u = if ((s.apply rules e).1.book i).inside = (s.book i).inside then none
        else some ⟨i, e.header, ((s.apply rules e).1.book i).inside⟩ := by
  have htells := (apply_moves rules hs.orders e).tells hc hi
  rw [h] at htells
  obtain ⟨hopen, hu⟩ := htells.of_ok
  have hdecides := apply_decides rules hs hi hopen
  revert h hu
  cases ha : s.apply rules e with
  | mk s' outcome =>
    rintro rfl hu
    rw [ha] at hdecides
    exact ⟨hdecides.1, hdecides.2, hu⟩

/-- What is permitted goes through. -/
theorem apply_of_permits (rules : Rules) (hs : s.Sound) (hi : e.instrument? = some i)
    (hopen : (s.book i).isCorrupted = false)
    (h : (s.interest i).Permits i (e.message.action rules.executionPriceMode) y) :
    (∃ u, (s.apply rules e).2 = .ok u) ∧ Through i s (s.apply rules e).1 ∧
      (s.apply rules e).1.interest i = y := by
  have hdecides := apply_decides rules hs hi hopen
  cases ha : s.apply rules e with
  | mk s' outcome =>
    rw [ha] at hdecides
    cases outcome with
    | error refusal => exact absurd h (hdecides y)
    | ok u => exact ⟨⟨u, rfl⟩, hdecides.1, hdecides.2.unique h⟩

end Store
end TopOfBook
