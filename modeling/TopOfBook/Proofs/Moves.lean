import TopOfBook.Engine.Desk
import TopOfBook.Proofs.Books
import TopOfBook.Proofs.LiveOrders

/-! All that a message can do to a desk. The nine messages come down to four actions, and
`Desk.Moves` lists what each of them leads to: the table changes first, so a fault of the book
leaves the table changed, and every other fault leaves all as it was. -/

namespace TopOfBook

/-- What a message asks of a desk. -/
inductive Action
  | idle
  | add (order : Order)
  /-- Shares come off an order, all of them without a quantity, and off the level where it rests
  or the one at the given price. -/
  | take (id : OrderId) (quantity : Option Quantity) (price : Option Price)
  | replace (oldId newId : OrderId) (price : Price) (quantity : Quantity)

namespace Action

/-- The numbers of orders that an action names. -/
def ids : Action → List OrderId
  | idle => []
  | add order => [order.id]
  | take id _ _ => [id]
  | replace oldId newId _ _ => [oldId, newId]

/-- An added order is for the instrument. -/
def IsOn (i : Instrument) : Action → Prop
  | add order => order.instrument = i
  | _ => True

end Action

namespace Message

/-- The numbers of orders that a message names. -/
def ids : Message → List OrderId
  | directory .. => []
  | addOrder order => [order.id]
  | addOrderAttributed order _ => [order.id]
  | orderExecuted _ id _ _ => [id]
  | orderExecutedWithPrice _ id _ _ _ _ => [id]
  | orderCancel _ id _ => [id]
  | orderDelete _ id => [id]
  | orderReplace _ oldId newId _ _ => [oldId, newId]
  | unknown .. => []

def action (mode : ExecutionPriceMode) : Message → Action
  | directory .. => .idle
  | addOrder order => .add order
  | addOrderAttributed order _ => .add order
  | orderExecuted _ id quantity _ => .take id (some quantity) none
  | orderExecutedWithPrice _ id quantity _ price _ =>
    .take id (some quantity) (if mode = .eventPrice then some price else none)
  | orderCancel _ id quantity => .take id (some quantity) none
  | orderDelete _ id => .take id none none
  | orderReplace _ oldId newId price quantity => .replace oldId newId price quantity
  | unknown .. => .idle

/-- The order that a message adds, with a name or without. -/
def added? : Message → Option Order
  | addOrder order => some order
  | addOrderAttributed order _ => some order
  | _ => none

theorem ids_eq_nil {m : Message} (h : m.instrument? = none) : m.ids = [] := by
  cases m <;> first | rfl | cases h

theorem ids_action (mode : ExecutionPriceMode) (m : Message) : (m.action mode).ids = m.ids := by
  cases m <;> rfl

theorem isOn_action (mode : ExecutionPriceMode) {m : Message} {i : Instrument}
    (h : m.instrument? = some i) : (m.action mode).IsOn i := by
  cases m <;> first | trivial | exact Option.some.inj h

theorem action_of_added? (mode : ExecutionPriceMode) {m : Message} {o : Order}
    (h : m.added? = some o) : m.action mode = .add o := by
  cases m <;> cases h <;> rfl

theorem instrument?_of_added? {m : Message} {o : Order} (h : m.added? = some o) :
    m.instrument? = some o.instrument := by
  cases m <;> cases h <;> rfl

/-- Executions reduce the level where the order rests. -/
theorem action_restingPrice {m : Message} {id : OrderId} {quantity : Option Quantity}
    {price : Option Price} (h : m.action .restingPrice = .take id quantity price) :
    price = none := by
  cases m <;> simp [action] at h <;> simp [← h.2.2]

end Message

namespace Desk

variable {d d' : Desk} {a : Action} {r : Except BookFault Effect}

def act (d : Desk) : Action → Desk × Except BookFault Effect
  | .idle => (d, .ok .nothing)
  | .add order => d.add order
  | .take id quantity price => d.reduce id quantity price
  | .replace oldId newId price quantity => d.replace oldId newId price quantity

theorem apply_eq_act (d : Desk) (mode : ExecutionPriceMode) (m : Message) :
    d.apply mode m = d.act (m.action mode) := by
  cases m <;> rfl

/-- What an action can lead to. -/
inductive Moves (d : Desk) : Action → Desk → Except BookFault Effect → Prop
  | idle : Moves d .idle d (.ok .nothing)
  | refused (a : Action) (fault : BookFault) (horders : fault.isOfLevel = false) :
      Moves d a d (.error fault)
  | addFailed (o : Order) (fault : BookFault) (hfree : d.orders.find? o.id = none)
      (hbook : d.book.add o.side o.price o.quantity = .error fault) :
      Moves d (.add o) ⟨d.book, d.orders.put o.id o⟩ (.error fault)
  | added (o : Order) (book : Book) (touched : Bool) (hfree : d.orders.find? o.id = none)
      (hbook : d.book.add o.side o.price o.quantity = .ok (book, touched)) :
      Moves d (.add o) ⟨book, d.orders.put o.id o⟩ (.ok (.changed touched))
  | takenNothing (id : OrderId) (quantity : Option Quantity) (price : Option Price) :
      Moves d (.take id quantity price) d (.ok .nothing)
  | takeFailed (id : OrderId) (quantity : Option Quantity) (price : Option Price) (o : Order)
      (n rest : Quantity) (fault : BookFault) (hlive : d.orders.find? id = some o)
      (hown : o.instrument = d.book.instrument) (hrest : rest.toNat + n.toNat = o.quantity.toNat)
      (hbook : d.book.reduce o.side (price.getD o.price) n = .error fault) :
      Moves d (.take id quantity price)
        ⟨d.book, d.orders.put id { o with quantity := rest }⟩ (.error fault)
  | taken (id : OrderId) (quantity : Option Quantity) (price : Option Price) (o : Order)
      (n rest : Quantity) (book : Book) (touched : Bool) (hlive : d.orders.find? id = some o)
      (hown : o.instrument = d.book.instrument) (hrest : rest.toNat + n.toNat = o.quantity.toNat)
      (hbook : d.book.reduce o.side (price.getD o.price) n = .ok (book, touched)) :
      Moves d (.take id quantity price)
        ⟨book, d.orders.put id { o with quantity := rest }⟩ (.ok (.changed touched))
  | replaceShort (oldId newId : OrderId) (price : Price) (quantity : Quantity) (old : Order)
      (fault : BookFault) (hlive : d.orders.find? oldId = some old)
      (hown : old.instrument = d.book.instrument) (hfree : d.orders.find? newId = none)
      (hreduce : d.book.reduce old.side old.price old.quantity = .error fault)
      (hquantity : quantity.isZero = false) :
      Moves d (.replace oldId newId price quantity)
        ⟨d.book, (d.orders.put oldId { old with quantity := .zero }).put newId
          ⟨newId, old.instrument, old.side, price, quantity⟩⟩ (.error fault)
  | replaceFull (oldId newId : OrderId) (price : Price) (quantity : Quantity) (old : Order)
      (without : Book) (touched : Bool) (fault : BookFault)
      (hlive : d.orders.find? oldId = some old) (hown : old.instrument = d.book.instrument)
      (hfree : d.orders.find? newId = none)
      (hreduce : d.book.reduce old.side old.price old.quantity = .ok (without, touched))
      (hadd : without.add old.side price quantity = .error fault)
      (hquantity : quantity.isZero = false) :
      Moves d (.replace oldId newId price quantity)
        ⟨without, (d.orders.put oldId { old with quantity := .zero }).put newId
          ⟨newId, old.instrument, old.side, price, quantity⟩⟩ (.error fault)
  | replaced (oldId newId : OrderId) (price : Price) (quantity : Quantity) (old : Order)
      (without book : Book) (touched touched' : Bool) (hlive : d.orders.find? oldId = some old)
      (hown : old.instrument = d.book.instrument) (hfree : d.orders.find? newId = none)
      (hreduce : d.book.reduce old.side old.price old.quantity = .ok (without, touched))
      (hadd : without.add old.side price quantity = .ok (book, touched'))
      (hquantity : quantity.isZero = false) :
      Moves d (.replace oldId newId price quantity)
        ⟨book, (d.orders.put oldId { old with quantity := .zero }).put newId
          ⟨newId, old.instrument, old.side, price, quantity⟩⟩ (.ok (.changed true))

theorem add_moves (d : Desk) (o : Order) : d.Moves (.add o) (d.add o).1 (d.add o).2 := by
  unfold add
  cases hr : d.orders.register o with
  | error fault => exact .refused _ fault (OrderTable.isOfLevel_of_register hr)
  | ok orders =>
    obtain ⟨-, hfree, rfl⟩ := OrderTable.register_eq_ok_iff.1 hr
    simp only
    cases hb : d.book.add o.side o.price o.quantity with
    | error fault => exact .addFailed o fault hfree hb
    | ok result => exact .added o result.1 result.2 hfree hb

/-- With a live order of the instrument of the book, only the shares can be in the way: first
those of the order, then those of the level. -/
theorem reduce_of_live {id : OrderId} {o : Order} (hlive : d.orders.find? id = some o)
    (hown : o.instrument = d.book.instrument) (quantity : Option Quantity)
    (price : Option Price) :
    d.reduce id quantity price =
      match d.orders.take id quantity with
      | .error fault => (d, .error fault)
      | .ok (orders, reduction) =>
        if reduction.reduced.isZero then (⟨d.book, orders⟩, .ok .nothing)
        else
          match d.book.reduce o.side (price.getD o.price) reduction.reduced with
          | .error fault => (⟨d.book, orders⟩, .error fault)
          | .ok (book, touched) => (⟨book, orders⟩, .ok (.changed touched)) := by
  rw [reduce, OrderTable.lookup_eq_ok_iff.2 hlive]
  dsimp only
  rw [if_neg (not_not.2 hown)]
  rfl

theorem reduce_moves (hd : d.orders.Sound) (id : OrderId) (quantity : Option Quantity)
    (price : Option Price) :
    d.Moves (.take id quantity price) (d.reduce id quantity price).1
      (d.reduce id quantity price).2 := by
  cases hl : d.orders.lookup id with
  | error fault =>
    rw [reduce, hl]
    exact .refused _ fault (OrderTable.isOfLevel_of_lookup hl)
  | ok o =>
    have hlive := OrderTable.lookup_eq_ok_iff.1 hl
    by_cases hown : o.instrument = d.book.instrument
    · rw [reduce_of_live hlive hown]
      cases ht : d.orders.take id quantity with
      | error fault => exact .refused _ fault (OrderTable.isOfLevel_of_take ht)
      | ok result =>
        obtain ⟨rest, hrest, htable, hreduction⟩ := (OrderTable.take_eq_ok_iff hlive).1 ht
        rw [← show result.2.reduced = quantity.getD o.quantity by rw [hreduction]] at hrest
        dsimp only
        rw [htable]
        split
        · rename_i hz
          -- nothing was taken off, so the order is put back as it was
          have hq : rest = o.quantity := Quantity.toNat_inj (by
            rw [Quantity.isZero_iff] at hz
            omega)
          rw [hq, OrderTable.put_self hd hlive]
          exact .takenNothing id quantity price
        · cases hb : d.book.reduce o.side (price.getD o.price) result.2.reduced with
          | error fault => exact .takeFailed id quantity price o _ rest fault hlive hown hrest hb
          | ok books =>
            exact .taken id quantity price o _ rest books.1 books.2 hlive hown hrest hb
    · rw [reduce, hl]
      dsimp only
      rw [if_pos hown]
      exact .refused _ _ rfl

/-- A replacement goes ahead on its own instrument, with a free number and some shares. -/
theorem replaceFault?_eq_none_iff {old : Order} {newId : OrderId} {quantity : Quantity} :
    d.replaceFault? old newId quantity = none ↔
      old.instrument = d.book.instrument ∧ d.orders.find? newId = none ∧
        quantity.isZero = false := by
  rw [replaceFault?, OrderTable.contains_eq_isSome]
  by_cases hown : old.instrument = d.book.instrument
  · cases hfree : d.orders.find? newId <;> simp [hown]
  · simp [hown]

theorem isOfLevel_of_replaceFault? {old : Order} {newId : OrderId} {quantity : Quantity}
    {fault : BookFault} (h : d.replaceFault? old newId quantity = some fault) :
    fault.isOfLevel = false := by
  unfold replaceFault? at h
  split at h
  · cases h
    rfl
  · split at h
    · cases h
      rfl
    · split at h <;> cases h
      rfl

/-- Where a replacement has passed its checks, the old order can be taken out of the table and the
new one can come in. -/
theorem orders_replaced (hd : d.orders.Sound) {oldId newId : OrderId} {quantity : Quantity}
    {old : Order} (hlive : d.orders.find? oldId = some old)
    (hcheck : d.replaceFault? old newId quantity = none) (price : Price) :
    d.orders.remove old.id = .ok (d.orders.put oldId { old with quantity := .zero },
        ⟨{ old with quantity := .zero }, old.quantity, true⟩) ∧
      (d.orders.put oldId { old with quantity := .zero }).register
          ⟨newId, old.instrument, old.side, price, quantity⟩ =
        .ok ((d.orders.put oldId { old with quantity := .zero }).put newId
          ⟨newId, old.instrument, old.side, price, quantity⟩) := by
  obtain ⟨-, hfree, hquantity⟩ := replaceFault?_eq_none_iff.1 hcheck
  obtain rfl : old.id = oldId := hd.own oldId old hlive
  constructor
  · rw [OrderTable.remove, hlive]
    rfl
  · exact OrderTable.register_eq_ok_iff.2
      ⟨hquantity, OrderTable.find?_put_zero_of_free hfree old, rfl⟩

/-- A replacement that passes its checks always changes the table. Only the levels can be in its
way, and they come afterwards. -/
theorem replace_of_checked (hd : d.orders.Sound) {oldId newId : OrderId} {quantity : Quantity}
    {old : Order} (hlive : d.orders.find? oldId = some old)
    (hcheck : d.replaceFault? old newId quantity = none) (price : Price) :
    d.replace oldId newId price quantity =
      let orders := (d.orders.put oldId { old with quantity := .zero }).put newId
        ⟨newId, old.instrument, old.side, price, quantity⟩
      match d.book.reduce old.side old.price old.quantity with
      | .error fault => (⟨d.book, orders⟩, .error fault)
      | .ok (without, _) =>
        match without.add old.side price quantity with
        | .error fault => (⟨without, orders⟩, .error fault)
        | .ok (book, _) => (⟨book, orders⟩, .ok (.changed true)) := by
  obtain ⟨hremove, hregister⟩ := orders_replaced hd hlive hcheck price
  unfold replace
  rw [OrderTable.lookup_eq_ok_iff.2 hlive]
  simp only [hcheck, hremove]
  exact hregister ▸ rfl

theorem replace_moves (hd : d.orders.Sound) (oldId newId : OrderId) (price : Price)
    (quantity : Quantity) :
    d.Moves (.replace oldId newId price quantity) (d.replace oldId newId price quantity).1
      (d.replace oldId newId price quantity).2 := by
  cases hl : d.orders.lookup oldId with
  | error fault =>
    rw [replace, hl]
    exact .refused _ fault (OrderTable.isOfLevel_of_lookup hl)
  | ok old =>
    have hlive := OrderTable.lookup_eq_ok_iff.1 hl
    cases hf : d.replaceFault? old newId quantity with
    | some fault =>
      rw [replace, hl]
      simp only [hf]
      exact .refused _ fault (isOfLevel_of_replaceFault? hf)
    | none =>
      obtain ⟨hown, hfree, hquantity⟩ := replaceFault?_eq_none_iff.1 hf
      rw [replace_of_checked hd hlive hf]
      dsimp only
      cases hb : d.book.reduce old.side old.price old.quantity with
      | error fault =>
        exact .replaceShort oldId newId price quantity old fault hlive hown hfree hb hquantity
      | ok without =>
        dsimp only
        cases ha : without.1.add old.side price quantity with
        | error fault =>
          exact .replaceFull oldId newId price quantity old without.1 without.2 fault hlive hown
            hfree hb ha hquantity
        | ok books =>
          exact .replaced oldId newId price quantity old without.1 books.1 without.2 books.2
            hlive hown hfree hb ha hquantity

theorem act_moves (hd : d.orders.Sound) (a : Action) : d.Moves a (d.act a).1 (d.act a).2 := by
  cases a with
  | idle => exact .idle
  | add order => exact add_moves d order
  | take id quantity price => exact reduce_moves hd id quantity price
  | replace oldId newId price quantity => exact replace_moves hd oldId newId price quantity

namespace Moves

/-- Only the levels of the book change. -/
theorem sameMarks (h : d.Moves a d' r) : Book.SameMarks d.book d'.book := by
  cases h with
  | idle => exact .refl _
  | refused => exact .refl _
  | addFailed => exact .refl _
  | added _ _ _ _ hbook => exact Book.sameMarks_add hbook
  | takenNothing => exact .refl _
  | takeFailed => exact .refl _
  | taken _ _ _ _ _ _ _ _ _ _ _ hbook => exact Book.sameMarks_reduce hbook
  | replaceShort => exact .refl _
  | replaceFull _ _ _ _ _ _ _ _ _ _ _ hreduce => exact Book.sameMarks_reduce hreduce
  | replaced _ _ _ _ _ _ _ _ _ _ _ _ hreduce hadd =>
    exact (Book.sameMarks_reduce hreduce).trans (Book.sameMarks_add hadd)

theorem filled (h : d.Moves a d' r) (hd : d.book.Filled) : d'.book.Filled := by
  cases h with
  | idle => exact hd
  | refused => exact hd
  | addFailed => exact hd
  | added _ _ _ _ hbook => exact hd.add hbook
  | takenNothing => exact hd
  | takeFailed => exact hd
  | taken _ _ _ _ _ _ _ _ _ _ _ hbook => exact hd.reduce hbook
  | replaceShort => exact hd
  | replaceFull _ _ _ _ _ _ _ _ _ _ _ hreduce => exact hd.reduce hreduce
  | replaced _ _ _ _ _ _ _ _ _ _ _ _ hreduce hadd => exact (hd.reduce hreduce).add hadd

/-- The orders are checked before anything is changed, so a fault of theirs leaves all as it was. -/
theorem eq_of_fault {fault : BookFault} (h : d.Moves a d' (.error fault))
    (horders : fault.isOfLevel = false) : d' = d := by
  cases h with
  | refused => rfl
  | addFailed _ _ _ hbook | replaceFull _ _ _ _ _ _ _ _ _ _ _ _ hbook =>
    obtain ⟨-, rfl⟩ := Book.add_eq_error_iff.1 hbook
    cases horders
  | takeFailed _ _ _ _ _ _ _ _ _ _ hbook | replaceShort _ _ _ _ _ _ _ _ _ hbook =>
    obtain ⟨-, rfl⟩ := Book.reduce_eq_error_iff.1 hbook
    cases horders

private theorem edited_replace {t : OrderTable} {i : Instrument} {oldId newId : OrderId}
    {old : Order} {price : Price} {quantity : Quantity} (ht : t.Sound)
    (hlive : t.find? oldId = some old) (hown : old.instrument = i)
    (hfree : t.find? newId = none) :
    OrderTable.Edited i [oldId, newId] t ((t.put oldId { old with quantity := .zero }).put newId
      ⟨newId, old.instrument, old.side, price, quantity⟩) := by
  refine .put (.rest ht hlive hown List.mem_cons_self .zero)
    (List.mem_cons_of_mem _ List.mem_cons_self) rfl hown fun o' ho' => ?_
  rw [OrderTable.find?_put_zero_of_free hfree] at ho'
  cases ho'

/-- Only orders of the instrument of the book change, and only those that the action names. -/
theorem edited (h : d.Moves a d' r) (hd : d.orders.Sound) (ha : a.IsOn d.book.instrument) :
    OrderTable.Edited d.book.instrument a.ids d.orders d'.orders := by
  cases h with
  | idle => exact .refl
  | refused => exact .refl
  | addFailed o _ hfree => exact .put .refl List.mem_cons_self rfl ha (by simp [hfree])
  | added o _ _ hfree => exact .put .refl List.mem_cons_self rfl ha (by simp [hfree])
  | takenNothing => exact .refl
  | takeFailed _ _ _ _ _ rest _ hlive hown => exact .rest hd hlive hown List.mem_cons_self rest
  | taken _ _ _ _ _ rest _ _ hlive hown => exact .rest hd hlive hown List.mem_cons_self rest
  | replaceShort _ _ _ _ _ _ hlive hown hfree => exact edited_replace hd hlive hown hfree
  | replaceFull _ _ _ _ _ _ _ _ hlive hown hfree => exact edited_replace hd hlive hown hfree
  | replaced _ _ _ _ _ _ _ _ _ hlive hown hfree => exact edited_replace hd hlive hown hfree

end Moves

end Desk
end TopOfBook
