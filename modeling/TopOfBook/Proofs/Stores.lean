import TopOfBook.Engine.Store
import TopOfBook.Proofs.Moves

/-! All that an event can do to a store. It reaches the book of its own instrument and the live
orders of that instrument, and nothing else, whatever becomes of it. -/

namespace TopOfBook

theorem Instrument.eq_of_id {i j : Instrument} (h : i.id = j.id) : i = j := by
  cases i
  cases j
  exact congrArg Instrument.mk h

namespace Event

/-- The numbers of orders that an event names. -/
def ids (e : Event) : List OrderId := e.message.ids

end Event

namespace Store

variable {rules : Rules} {s s' : Store} {e : Event} {outcome : Outcome} {i j : Instrument}

/-- A store with another book for an instrument and another table of orders. -/
def set (s : Store) (i : Instrument) (b : Book) (orders : OrderTable) : Store :=
  ⟨s.books.insert i b, orders⟩

@[simp] theorem orders_set (s : Store) (i : Instrument) (b : Book) (orders : OrderTable) :
    (s.set i b orders).orders = orders := rfl

theorem book?_set (s : Store) (i j : Instrument) (b : Book) (orders : OrderTable) :
    (s.set i b orders).book? j = if j = i then some b else s.book? j := by
  unfold set book?
  rw [Std.ExtTreeMap.getElem?_insert]
  by_cases h : j = i
  · subst h
    simp
  · simp [h, Ne.symm h]

theorem book_set (s : Store) (i j : Instrument) (b : Book) (orders : OrderTable) :
    (s.set i b orders).book j = if j = i then b else s.book j := by
  unfold book
  rw [book?_set]
  split <;> rfl

theorem inside?_getD (s : Store) (i : Instrument) :
    (s.inside? i).getD .empty = (s.book i).inside := by
  unfold inside? book
  cases s.book? i with
  | none => exact (Book.inside_empty i).symm
  | some b => rfl

/-- What an event can lead to. -/
inductive Moves (rules : Rules) (s : Store) (e : Event) : Store → Outcome → Prop
  | ignored (hnone : e.instrument? = none) : Moves rules s e s (.ok none)
  | rejected (i : Instrument) (hi : e.instrument? = some i)
      (hclosed : (s.book i).isCorrupted = true) :
      Moves rules s e s (.error (.corrupted i e.header.sequence))
  | failed (i : Instrument) (d : Desk) (fault : BookFault) (hi : e.instrument? = some i)
      (hopen : (s.book i).isCorrupted = false)
      (hdesk : Desk.Moves ⟨s.book i, s.orders⟩ (e.message.action rules.executionPriceMode) d
        (.error fault)) :
      Moves rules s e (s.set i (d.book.markCorrupted fault) d.orders)
        (.error (.integrity i e.header.sequence e.header.offset fault))
  | done (i : Instrument) (d : Desk) (effect : Effect) (hi : e.instrument? = some i)
      (hopen : (s.book i).isCorrupted = false)
      (hdesk : Desk.Moves ⟨s.book i, s.orders⟩ (e.message.action rules.executionPriceMode) d
        (.ok effect)) :
      Moves rules s e (s.set i (publish rules d.book effect).1 d.orders)
        (.ok ((publish rules d.book effect).2.map fun q => ⟨i, e.header, q⟩))

/-- An event for an open book is left to the desk. -/
theorem apply_of_open (rules : Rules) (hi : e.instrument? = some i)
    (hopen : (s.book i).isCorrupted = false) :
    s.apply rules e =
      match (Desk.mk (s.book i) s.orders).act (e.message.action rules.executionPriceMode) with
      | (d, .error fault) => (s.set i (d.book.markCorrupted fault) d.orders,
          .error (.integrity i e.header.sequence e.header.offset fault))
      | (d, .ok effect) => (s.set i (publish rules d.book effect).1 d.orders,
          .ok ((publish rules d.book effect).2.map fun q => ⟨i, e.header, q⟩)) := by
  rw [apply, hi]
  dsimp only
  rw [hopen, applyOpen, Desk.apply_eq_act]
  rfl

theorem apply_moves (rules : Rules) (hs : s.orders.Sound) (e : Event) :
    Moves rules s e (s.apply rules e).1 (s.apply rules e).2 := by
  cases hi : e.instrument? with
  | none =>
    rw [apply, hi]
    exact .ignored hi
  | some i =>
    cases hclosed : (s.book i).isCorrupted with
    | true =>
      rw [apply, hi]
      dsimp only
      rw [hclosed]
      exact .rejected i hi hclosed
    | false =>
      have hdesk := Desk.act_moves (d := ⟨s.book i, s.orders⟩) hs
        (e.message.action rules.executionPriceMode)
      rw [apply_of_open rules hi hclosed]
      cases hact : (Desk.mk (s.book i) s.orders).act (e.message.action rules.executionPriceMode)
        with
      | mk d r =>
        rw [hact] at hdesk
        cases r with
        | error fault => exact .failed i d fault hi hclosed hdesk
        | ok effect => exact .done i d effect hi hclosed hdesk

/-- Books stand under their own instrument and hold no empty levels, orders under their own
number and with shares left, and the instrument of every live order has a book. -/
structure Sound (s : Store) : Prop where
  books : ∀ i b, s.book? i = some b → b.instrument = i
  filled : ∀ i b, s.book? i = some b → b.Filled
  orders : s.orders.Sound
  opened : ∀ id o, s.orders.find? id = some o → (s.book? o.instrument).isSome

@[simp] theorem book?_empty (i : Instrument) : empty.book? i = none := by
  simp [empty, book?]

theorem sound_empty : empty.Sound where
  books i b h := by simp at h
  filled i b h := by simp at h
  orders := OrderTable.sound_empty
  opened id o h := by simp [empty] at h

theorem Sound.book (hs : s.Sound) (i : Instrument) : (s.book i).instrument = i := by
  unfold Store.book
  cases hb : s.book? i with
  | none => rfl
  | some b => exact hs.books i b hb

theorem Sound.book_filled (hs : s.Sound) (i : Instrument) : (s.book i).Filled := by
  unfold Store.book
  cases hb : s.book? i with
  | none => exact Book.filled_empty i
  | some b => exact hs.filled i b hb

theorem Sound.set (hs : s.Sound) {b : Book} {orders : OrderTable} {ids : List OrderId}
    (hb : b.instrument = i) (hf : b.Filled) (ho : OrderTable.Edited i ids s.orders orders) :
    (s.set i b orders).Sound where
  books j b' h := by
    rw [book?_set] at h
    split at h
    · rw [Option.some.injEq] at h
      rw [← h, hb, ‹j = i›]
    · exact hs.books j b' h
  filled j b' h := by
    rw [book?_set] at h
    split at h
    · rw [Option.some.injEq] at h
      exact h ▸ hf
    · exact hs.filled j b' h
  orders := ho.sound hs.orders
  opened id o h := by
    rw [book?_set]
    split
    · rfl
    · rename_i hne
      rcases ho.owner h with ⟨o', ho', he⟩ | ⟨-, he⟩
      · exact he ▸ hs.opened id o' ho'
      · exact absurd he hne

/-! ### Publishing -/

/-- The inside is either left alone or compared and published. -/
theorem publish_eq (rules : Rules) (b : Book) (effect : Effect) :
    publish rules b effect = (b, none) ∨ publish rules b effect = b.publish := by
  cases effect with
  | nothing => exact .inl rfl
  | changed touched =>
    simp only [publish]
    split
    · exact .inr rfl
    · exact .inl rfl

@[simp] theorem instrument_publish (rules : Rules) (b : Book) (effect : Effect) :
    (publish rules b effect).1.instrument = b.instrument := by
  rcases publish_eq rules b effect with h | h <;> simp [h]

@[simp] theorem onSide_publish (rules : Rules) (b : Book) (effect : Effect) (side : Side) :
    (publish rules b effect).1.onSide side = b.onSide side := by
  rcases publish_eq rules b effect with h | h <;> simp [h]

@[simp] theorem corruption_publish (rules : Rules) (b : Book) (effect : Effect) :
    (publish rules b effect).1.corruption = b.corruption := by
  rcases publish_eq rules b effect with h | h <;> simp [h]

/-! ### Corrupted instruments -/

theorem corrupted_pairwise (s : Store) : s.corrupted.Pairwise fun a b => compare a b = .lt :=
  (Std.ExtTreeMap.ordered_keys (t := s.books)).sublist List.filter_sublist

/-- An instrument without a book is not corrupted. -/
theorem mem_corrupted : i ∈ s.corrupted ↔ (s.book i).isCorrupted = true := by
  rw [corrupted, List.mem_filter, instruments, Std.ExtTreeMap.mem_keys, and_iff_right_iff_imp]
  intro hclosed
  rw [Std.ExtTreeMap.mem_iff_isSome_getElem?]
  change (s.book? i).isSome
  rw [book] at hclosed
  cases hb : s.book? i with
  | none =>
    rw [hb] at hclosed
    cases hclosed
  | some b => rfl

theorem corrupted_nodup (s : Store) : s.corrupted.Nodup :=
  Std.ExtTreeMap.nodup_keys.filter _

/-! ### What stays as it was -/

section Restrict

variable (keep : Instrument → Bool)

/-- Only the books and the orders of the instruments that are kept. -/
def restrict (s : Store) : Store := ⟨s.books.filter fun i _ => keep i, s.orders.restrict keep⟩

@[simp] theorem orders_restrict (s : Store) : (s.restrict keep).orders = s.orders.restrict keep :=
  rfl

theorem book?_restrict (s : Store) (i : Instrument) :
    (s.restrict keep).book? i = if keep i then s.book? i else none := by
  unfold restrict book?
  rw [Std.ExtTreeMap.getElem?_filter']
  cases keep i <;> cases s.books[i]? <;> simp [Option.filter]

theorem ext_book? (hb : ∀ i, s.book? i = s'.book? i) (ho : s.orders = s'.orders) : s = s' := by
  cases s; cases s'
  congr 1
  exact Std.ExtTreeMap.ext_getElem? hb

@[simp] theorem restrict_empty : empty.restrict keep = empty :=
  ext_book? (fun i => by simp [book?_restrict]) (OrderTable.restrict_empty keep)

variable {keep}

theorem restrict_set_of_drop (hk : keep i = false) {b : Book} {orders : OrderTable}
    (ho : orders.restrict keep = s.orders.restrict keep) :
    (s.set i b orders).restrict keep = s.restrict keep := by
  refine ext_book? (fun j => ?_) ho
  rw [book?_restrict, book?_restrict, book?_set]
  by_cases h : j = i
  · subst h
    simp [hk]
  · rw [if_neg h]

end Restrict

/-- A change for an instrument, of its book and of orders that the event names. -/
theorem Sound.edited (hs : s.Sound) {d : Desk} {r : Except BookFault Effect}
    (hi : e.instrument? = some i)
    (hdesk : Desk.Moves ⟨s.book i, s.orders⟩ (e.message.action rules.executionPriceMode) d r) :
    OrderTable.Edited i e.ids s.orders d.orders := by
  have hon := Message.isOn_action rules.executionPriceMode hi
  rw [← hs.book i] at hon
  have h := hdesk.edited hs.orders hon
  rwa [hs.book i, Message.ids_action] at h

namespace Moves

theorem sound (h : Moves rules s e s' outcome) (hs : s.Sound) : s'.Sound := by
  cases h with
  | ignored => exact hs
  | rejected => exact hs
  | failed i d fault hi _ hdesk =>
    refine hs.set (hdesk.sameMarks.instrument.trans (hs.book i)) ?_ (hs.edited hi hdesk)
    exact (hdesk.filled (hs.book_filled i)).of_onSide fun t => Book.onSide_markCorrupted _ _ t
  | done i d effect hi _ hdesk =>
    refine hs.set ?_ ?_ (hs.edited hi hdesk)
    · exact (instrument_publish rules _ effect).trans
        (hdesk.sameMarks.instrument.trans (hs.book i))
    · exact (hdesk.filled (hs.book_filled i)).of_onSide fun t => onSide_publish rules _ effect t

/-- Of instruments other than that of the event nothing changes. -/
theorem restrict (h : Moves rules s e s' outcome) (hs : s.Sound) {keep : Instrument → Bool}
    (hk : ∀ i, e.instrument? = some i → keep i = false) : s'.restrict keep = s.restrict keep := by
  cases h with
  | ignored => rfl
  | rejected => rfl
  | failed i d fault hi _ hdesk =>
    exact restrict_set_of_drop (hk i hi) ((hs.edited hi hdesk).restrict (hk i hi))
  | done i d effect hi _ hdesk =>
    exact restrict_set_of_drop (hk i hi) ((hs.edited hi hdesk).restrict (hk i hi))

theorem book?_of_ne (h : Moves rules s e s' outcome) (hj : e.instrument? ≠ some j) :
    s'.book? j = s.book? j := by
  cases h with
  | ignored => rfl
  | rejected => rfl
  | failed i _ _ hi =>
    rw [book?_set, if_neg]
    rintro rfl
    exact hj hi
  | done i _ _ hi =>
    rw [book?_set, if_neg]
    rintro rfl
    exact hj hi

theorem book_of_ne (h : Moves rules s e s' outcome) (hj : e.instrument? ≠ some j) :
    s'.book j = s.book j := by
  rw [book, book, h.book?_of_ne hj]

/-- After an event the book of its instrument is open only if the event went through. -/
theorem of_open (h : Moves rules s e s' outcome) (hi : e.instrument? = some i)
    (hopen : (s'.book i).isCorrupted = false) :
    ∃ d effect, (s.book i).isCorrupted = false ∧
      Desk.Moves ⟨s.book i, s.orders⟩ (e.message.action rules.executionPriceMode) d (.ok effect) ∧
      s' = s.set i (publish rules d.book effect).1 d.orders := by
  cases h with
  | ignored hnone =>
    rw [hi] at hnone
    cases hnone
  | rejected j hj hclosed =>
    obtain rfl : j = i := Option.some.inj (hj.symm.trans hi)
    rw [hclosed] at hopen
    cases hopen
  | failed j d fault hj =>
    obtain rfl : j = i := Option.some.inj (hj.symm.trans hi)
    rw [book_set, if_pos rfl, Book.isCorrupted_markCorrupted] at hopen
    cases hopen
  | done j d effect hj hwas hdesk =>
    obtain rfl : j = i := Option.some.inj (hj.symm.trans hi)
    exact ⟨d, effect, hwas, hdesk, rfl⟩

/-- A live order was live on its instrument before, or the event is for it and names it. -/
theorem owner (h : Moves rules s e s' outcome) (hs : s.Sound) {id : OrderId} {o : Order}
    (ho : s'.orders.find? id = some o) :
    (∃ o', s.orders.find? id = some o' ∧ o'.instrument = o.instrument) ∨
      (id ∈ e.ids ∧ e.instrument? = some o.instrument) := by
  cases h with
  | ignored => exact .inl ⟨o, ho, rfl⟩
  | rejected => exact .inl ⟨o, ho, rfl⟩
  | failed i d fault hi _ hdesk =>
    exact ((hs.edited hi hdesk).owner ho).imp_right fun ⟨hid, he⟩ => ⟨hid, he ▸ hi⟩
  | done i d effect hi _ hdesk =>
    exact ((hs.edited hi hdesk).owner ho).imp_right fun ⟨hid, he⟩ => ⟨hid, he ▸ hi⟩

end Moves

/-! ### Resetting an instrument -/

@[simp] theorem orders_reset (s : Store) (i : Instrument) :
    (s.reset i).1.orders = s.orders.restrict fun j => decide (j ≠ i) := rfl

theorem book?_reset (s : Store) (i j : Instrument) :
    (s.reset i).1.book? j = if j = i then (s.book? i).map Book.clear else s.book? j := by
  unfold reset
  cases hb : s.book? i with
  | none =>
    simp only [Option.map_none]
    split
    · rw [‹j = i›]
      exact hb
    · rfl
  | some b => exact book?_set s i j b.clear _

theorem Sound.book_reset (hs : s.Sound) (i j : Instrument) :
    (s.reset i).1.book j = if j = i then .empty i else s.book j := by
  unfold Store.book
  rw [book?_reset]
  split
  · rename_i h
    cases hb : s.book? i with
    | none => rw [h, Option.map_none, Option.getD_none]
    | some b => simp [Book.clear, hs.books i b hb]
  · rfl

theorem Sound.reset (hs : s.Sound) (i : Instrument) : (s.reset i).1.Sound where
  books j b h := by
    rw [book?_reset] at h
    split at h
    · obtain ⟨b', hb', rfl⟩ := Option.map_eq_some_iff.1 h
      exact ‹j = i› ▸ hs.books i b' hb'
    · exact hs.books j b h
  filled j b h := by
    rw [book?_reset] at h
    split at h
    · obtain ⟨b', hb', rfl⟩ := Option.map_eq_some_iff.1 h
      exact Book.filled_empty _
    · exact hs.filled j b h
  orders := by
    rw [orders_reset]
    exact hs.orders.restrict _
  opened id o h := by
    rw [orders_reset, OrderTable.find?_restrict, Option.filter_eq_some_iff] at h
    rw [book?_reset, if_neg (of_decide_eq_true h.2)]
    exact hs.opened id o h.1

/-- Of other instruments nothing changes. -/
theorem restrict_reset {keep : Instrument → Bool} (s : Store) (hk : keep i = false) :
    (s.reset i).1.restrict keep = s.restrict keep := by
  apply ext_book?
  · intro j
    rw [book?_restrict, book?_restrict, book?_reset]
    by_cases h : j = i
    · subst h
      simp [hk]
    · rw [if_neg h]
  · rw [orders_restrict, orders_restrict, orders_reset, OrderTable.restrict_restrict]
    congr 1
    funext j
    by_cases h : j = i
    · simp [h, hk]
    · simp [h]

end Store
end TopOfBook
