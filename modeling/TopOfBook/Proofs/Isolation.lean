import Mathlib.Data.List.Basic
import TopOfBook.Proofs.Runs

/-! Instruments that share no numbers of orders do not see each other. An event reads the book of
its instrument and the live orders that it names, so it leads to the same when only some
instruments are kept, its own among them, and the orders it names are theirs. Along a run this
holds of every event as long as no number is named for a kept instrument and for a dropped
one. -/

namespace TopOfBook

namespace OrderTable

variable {t : OrderTable} {keep : Instrument → Bool}

/-- The live orders of an instrument, by their number. -/
def ofInstrument (t : OrderTable) (i : Instrument) : List Order :=
  t.toList.filter fun o => o.instrument = i

/-- The live orders at the given numbers are for kept instruments. -/
def KeptAt (keep : Instrument → Bool) (t : OrderTable) (ids : List OrderId) : Prop :=
  ∀ id ∈ ids, ∀ o, t.find? id = some o → keep o.instrument = true

theorem ofInstrument_restrict {i : Instrument} (hk : keep i = true) :
    (t.restrict keep).ofInstrument i = t.ofInstrument i := by
  rw [ofInstrument, ofInstrument, toList_restrict, List.filter_filter]
  apply List.filter_congr
  intro o _
  by_cases h : o.instrument = i
  · simp [h, hk]
  · simp [h]

theorem purge_snd (t : OrderTable) (i : Instrument) :
    (t.purge i).2 = (t.ofInstrument i).length := by
  have hsize (t : OrderTable) : t.size = t.toList.length := by
    rw [toList, List.length_map, Std.ExtTreeMap.length_toList, size]
  have hkept : (t.purge i).1.toList = t.toList.filter fun o => !decide (o.instrument = i) := by
    simp [purge_fst, toList_restrict]
  have hsplit := t.toList.length_eq_length_filter_add fun o => decide (o.instrument = i)
  change t.size - (t.purge i).1.size = _
  rw [hsize, hsize, hkept, ofInstrument]
  omega

end OrderTable

/-! ### A desk -/

namespace Desk

variable {d : Desk} {keep : Instrument → Bool}

/-- The same book, beside the orders of the instruments that are kept. -/
def restrict (d : Desk) (keep : Instrument → Bool) : Desk := ⟨d.book, d.orders.restrict keep⟩

theorem add_restrict {o : Order} (ho : keep o.instrument = true)
    (hids : d.orders.KeptAt keep [o.id]) :
    (d.restrict keep).add o = ((d.add o).1.restrict keep, (d.add o).2) := by
  unfold add restrict
  dsimp only
  rw [OrderTable.register_restrict ho (hids o.id List.mem_cons_self)]
  cases d.orders.register o with
  | error fault => rfl
  | ok orders =>
    simp only [Except.map]
    cases d.book.add o.side o.price o.quantity <;> rfl

theorem reduce_restrict {id : OrderId} (quantity : Option Quantity) (price : Option Price)
    (hids : d.orders.KeptAt keep [id]) :
    (d.restrict keep).reduce id quantity price =
      ((d.reduce id quantity price).1.restrict keep, (d.reduce id quantity price).2) := by
  have hid := hids id List.mem_cons_self
  unfold reduce restrict
  dsimp only
  rw [OrderTable.lookup_restrict hid]
  cases d.orders.lookup id with
  | error fault => rfl
  | ok o =>
    dsimp only
    split
    · rfl
    have htake := OrderTable.take_restrict quantity hid
    unfold OrderTable.take at htake
    rw [htake]
    cases quantity.elim (d.orders.remove id) (d.orders.reduce id) with
    | error fault => rfl
    | ok taken =>
      simp only [Except.map]
      split
      · rfl
      · cases d.book.reduce o.side (price.getD o.price) taken.2.reduced <;> rfl

theorem replaceFault?_restrict {newId : OrderId} (old : Order) (quantity : Quantity)
    (hids : d.orders.KeptAt keep [newId]) :
    (d.restrict keep).replaceFault? old newId quantity = d.replaceFault? old newId quantity := by
  unfold replaceFault? restrict
  dsimp only
  rw [OrderTable.contains_restrict (hids newId List.mem_cons_self)]

theorem replace_restrict (hd : d.orders.Sound) {oldId newId : OrderId} (price : Price)
    (quantity : Quantity) (hids : d.orders.KeptAt keep [oldId, newId]) :
    (d.restrict keep).replace oldId newId price quantity =
      ((d.replace oldId newId price quantity).1.restrict keep,
        (d.replace oldId newId price quantity).2) := by
  have hold := hids oldId List.mem_cons_self
  have hnew := hids newId (List.mem_cons_of_mem _ List.mem_cons_self)
  have hfault (old : Order) : (d.restrict keep).replaceFault? old newId quantity =
      d.replaceFault? old newId quantity :=
    replaceFault?_restrict old quantity fun id hid => by
      rw [List.mem_singleton] at hid
      exact hid ▸ hnew
  unfold replace
  rw [show (d.restrict keep).orders = d.orders.restrict keep from rfl,
    OrderTable.lookup_restrict hold]
  cases hl : d.orders.lookup oldId with
  | error fault => rfl
  | ok old =>
    have hlive := OrderTable.lookup_eq_ok_iff.1 hl
    simp only [hfault]
    cases d.replaceFault? old newId quantity with
    | some fault => rfl
    | none =>
      simp only [hd.own oldId old hlive, OrderTable.remove_restrict hold]
      cases hr : d.orders.remove oldId with
      | error fault => rfl
      | ok removed =>
        obtain ⟨-, htable⟩ := OrderTable.remove_eq_ok hlive hr
        -- the table without the old order holds no more at the new number than before
        have hnew' : ∀ o, removed.1.find? newId = some o → keep o.instrument = true := by
          intro o ho
          rw [htable] at ho
          exact hnew o (OrderTable.find?_of_put_zero ho)
        simp only [Except.map]
        rw [OrderTable.register_restrict (o := ⟨newId, old.instrument, old.side, price, quantity⟩)
          (hold old hlive) hnew']
        cases removed.1.register ⟨newId, old.instrument, old.side, price, quantity⟩ with
        | error fault => rfl
        | ok orders =>
          simp only [Except.map]
          rw [show (d.restrict keep).book = d.book from rfl]
          cases d.book.reduce old.side old.price removed.2.reduced with
          | error fault => rfl
          | ok without =>
            dsimp only
            cases without.1.add old.side price quantity <;> rfl

/-- An action reads the book and the orders that it names. -/
theorem act_restrict (hd : d.orders.Sound) {a : Action} (hk : keep d.book.instrument = true)
    (ha : a.IsOn d.book.instrument) (hids : d.orders.KeptAt keep a.ids) :
    (d.restrict keep).act a = ((d.act a).1.restrict keep, (d.act a).2) := by
  cases a with
  | idle => rfl
  | add o =>
    have ho : o.instrument = d.book.instrument := ha
    exact add_restrict (by rw [ho, hk]) hids
  | take id quantity price => exact reduce_restrict quantity price hids
  | replace oldId newId price quantity => exact replace_restrict hd price quantity hids

end Desk

/-! ### A store -/

namespace Store

variable {rules : Rules} {s : Store} {keep : Instrument → Bool}

theorem restrict_set_of_keep {i : Instrument} (hk : keep i = true) (b : Book)
    (orders : OrderTable) :
    (s.restrict keep).set i b (orders.restrict keep) = (s.set i b orders).restrict keep :=
  ext_book? (fun j => by
    rw [book?_restrict, book?_set, book?_set, book?_restrict]
    by_cases h : j = i
    · simp [h, hk]
    · simp [h]) rfl

theorem book_restrict {i : Instrument} (hk : keep i = true) :
    (s.restrict keep).book i = s.book i := by
  rw [book, book, book?_restrict, if_pos hk]

theorem apply_restrict (hs : s.Sound) (rules : Rules) {e : Event}
    (hk : ∀ i, e.instrument? = some i → keep i = true) (hids : s.orders.KeptAt keep e.ids) :
    (s.restrict keep).apply rules e =
      ((s.apply rules e).1.restrict keep, (s.apply rules e).2) := by
  unfold apply
  cases hi : e.instrument? with
  | none => rfl
  | some i =>
    simp only
    rw [book_restrict (hk i hi)]
    split
    · rfl
    have hkeep : keep (s.book i).instrument = true := by rw [hs.book i, hk i hi]
    have hon : (e.message.action rules.executionPriceMode).IsOn (s.book i).instrument := by
      rw [hs.book i]
      exact Message.isOn_action _ hi
    have hids' : s.orders.KeptAt keep (e.message.action rules.executionPriceMode).ids := by
      rw [Message.ids_action]
      exact hids
    have hact := Desk.act_restrict (d := ⟨s.book i, s.orders⟩) hs.orders hkeep hon hids'
    unfold applyOpen
    rw [book_restrict (hk i hi), Desk.apply_eq_act, Desk.apply_eq_act]
    rw [show Desk.mk (s.book i) (s.restrict keep).orders =
      (Desk.mk (s.book i) s.orders).restrict keep from rfl, hact]
    cases (Desk.mk (s.book i) s.orders).act (e.message.action rules.executionPriceMode) with
    | mk d r =>
      cases r with
      | error fault => exact congrArg (·, _) (restrict_set_of_keep (hk i hi) _ d.orders)
      | ok effect => exact congrArg (·, _) (restrict_set_of_keep (hk i hi) _ d.orders)

theorem reset_restrict {i : Instrument} (hk : keep i = true) :
    (s.restrict keep).reset i = ((s.reset i).1.restrict keep, (s.reset i).2) := by
  apply Prod.ext
  · apply ext_book?
    · intro j
      rw [book?_reset, book?_restrict, book?_restrict, book?_restrict, book?_reset]
      by_cases h : j = i
      · simp [h, hk]
      · simp [h]
    · rw [orders_reset, orders_restrict, orders_restrict, orders_reset,
        OrderTable.restrict_restrict, OrderTable.restrict_restrict]
      simp only [Bool.and_comm]
  · change ((s.orders.restrict keep).purge i).2 = (s.orders.purge i).2
    rw [OrderTable.purge_snd, OrderTable.purge_snd, OrderTable.ofInstrument_restrict hk]

/-- A call for a kept instrument, if it names only orders of kept instruments. -/
theorem call_restrict (hs : s.Sound) (rules : Rules) {c : Call}
    (hk : ∀ i, c.instrument? = some i → keep i = true) (hids : s.orders.KeptAt keep c.ids) :
    (s.restrict keep).call rules c = ((s.call rules c).1.restrict keep, (s.call rules c).2) := by
  cases c with
  | process e latency =>
    simp only [call]
    rw [apply_restrict hs rules hk hids]
  | reset i =>
    simp only [call]
    rw [reset_restrict (hk i rfl)]

theorem entry_restrict (hs : s.Sound) (rules : Rules) {c : Call}
    (hk : ∀ i, c.instrument? = some i → keep i = true) (hids : s.orders.KeptAt keep c.ids) :
    (s.restrict keep).entry rules c = s.entry rules c := by
  rw [entry, entry, call_restrict hs rules hk hids]
  cases hi : c.instrument? with
  | none => rfl
  | some i => simp only [Option.bind_some, book?_restrict, hk i hi, if_true]

/-- A call for a dropped instrument. -/
theorem call_restrict_of_drop (hs : s.Sound) (rules : Rules) {c : Call}
    (hk : ∀ i, c.instrument? = some i → keep i = false) :
    (s.call rules c).1.restrict keep = s.restrict keep := by
  cases c with
  | process e latency => exact (apply_moves rules hs.orders e).restrict hs hk
  | reset i => exact restrict_reset s (hk i rfl)

/-- A live order was live on its instrument before, or the call is for it and names it. -/
theorem call_owner (hs : s.Sound) (rules : Rules) {c : Call} {id : OrderId} {o : Order}
    (ho : (s.call rules c).1.orders.find? id = some o) :
    (∃ o', s.orders.find? id = some o' ∧ o'.instrument = o.instrument) ∨
      (id ∈ c.ids ∧ c.instrument? = some o.instrument) := by
  cases c with
  | process e latency => exact (apply_moves rules hs.orders e).owner hs ho
  | reset i =>
    simp only [call, orders_reset] at ho
    rw [OrderTable.find?_restrict, Option.filter_eq_some_iff] at ho
    exact .inl ⟨o, ho.1, rfl⟩

end Store

/-! ### Runs -/

/-- Calls for instruments with different keys name different orders. -/
def KeepApart {K : Type} (key : Instrument → K) (calls : List Call) : Prop :=
  ∀ c ∈ calls, ∀ c' ∈ calls, ∀ i ∈ c.instrument?, ∀ i' ∈ c'.instrument?,
    ∀ id ∈ c.ids, id ∈ c'.ids → key i = key i'

-- named, so that the search does not run through all 64-bit numbers of orders
instance {K : Type} [DecidableEq K] (key : Instrument → K) (calls : List Call) :
    Decidable (KeepApart key calls) :=
  have apart (c c' : Call) (i : Instrument) : Decidable
      (∀ i' ∈ c'.instrument?, ∀ id ∈ c.ids, id ∈ c'.ids → key i = key i') :=
    @Option.decidableForallMem Instrument _ (fun _ => List.decidableBAll _ c.ids) c'.instrument?
  have pairs (c c' : Call) : Decidable (∀ i ∈ c.instrument?, ∀ i' ∈ c'.instrument?,
      ∀ id ∈ c.ids, id ∈ c'.ids → key i = key i') :=
    @Option.decidableForallMem Instrument _ (apart c c') c.instrument?
  @List.decidableBAll Call _ (fun c => @List.decidableBAll Call _ (pairs c) calls) calls

theorem KeepApart.comp {K L : Type} {key : Instrument → K} {calls : List Call}
    (h : KeepApart key calls) (f : K → L) : KeepApart (fun i => f (key i)) calls :=
  fun c hc c' hc' i hi i' hi' id hid hid' =>
    congrArg f (h c hc c' hc' i hi i' hi' id hid hid')

namespace Store

variable {rules : Rules} {s : Store} {keep : Instrument → Bool}

/-- Calls name live orders only for instruments that are kept or dropped with their owner. -/
def Owned (keep : Instrument → Bool) (s : Store) (calls : List Call) : Prop :=
  ∀ id o, s.orders.find? id = some o →
    ∀ c ∈ calls, ∀ i ∈ c.instrument?, id ∈ c.ids → keep i = keep o.instrument

theorem Owned.call {c : Call} {rest : List Call} (hs : s.Sound) (ho : s.Owned keep (c :: rest))
    (ha : KeepApart keep (c :: rest)) (rules : Rules) :
    (s.call rules c).1.Owned keep rest := by
  intro id o hlive c' hc' i hi hid
  have hc'' := List.mem_cons_of_mem c hc'
  rcases call_owner hs rules hlive with ⟨o', hlive', hsame⟩ | ⟨hnamed, howner⟩
  · rw [← hsame]
    exact ho id o' hlive' c' hc'' i hi hid
  · exact ha c' hc'' c List.mem_cons_self i hi o.instrument howner id hid hnamed

/-- A run of the kept calls alone leads to what the whole run leads to for kept instruments, and
answers each of these calls alike. -/
theorem run_restrict (hs : s.Sound) (rules : Rules) {calls : List Call} {kept : Call → Bool}
    (hkept : ∀ c i, c.instrument? = some i → kept c = keep i)
    (ho : s.Owned keep calls) (ha : KeepApart keep calls) :
    (s.restrict keep).run rules (calls.filter kept) =
      ((s.run rules calls).1.restrict keep, (s.run rules calls).2.filter fun a => kept a.call) := by
  induction calls generalizing s with
  | nil => rfl
  | cons c rest ih =>
    have ih := ih (hs.call rules c) (ho.call hs ha rules)
      fun c₁ h₁ c₂ h₂ => ha c₁ (List.mem_cons_of_mem _ h₁) c₂ (List.mem_cons_of_mem _ h₂)
    cases hc : kept c with
    | true =>
      have hk : ∀ i, c.instrument? = some i → keep i = true := fun i hi => hkept c i hi ▸ hc
      have hids : s.orders.KeptAt keep c.ids := by
        intro id hid o hlive
        cases hi : c.instrument? with
        | none =>
          rw [Call.ids_eq_nil hi] at hid
          cases hid
        | some i => rw [← ho id o hlive c List.mem_cons_self i hi hid, hk i hi]
      have hentry := entry_restrict hs rules hk hids
      rw [List.filter_cons_of_pos hc, run, call_restrict hs rules hk hids, hentry]
      simp only [run, ih, List.filter_cons, entry, hc, if_true]
    | false =>
      have hk : ∀ i, c.instrument? = some i → keep i = false := fun i hi => hkept c i hi ▸ hc
      rw [List.filter_cons_of_neg (by simp [hc]), ← call_restrict_of_drop hs rules hk, ih]
      simp [run, entry, hc]

end Store

/-! ### Latencies -/

/-- The call without the latency that was measured. -/
def Call.untimed : Call → Call
  | process e _ => process e 0
  | reset i => reset i

@[simp] theorem Call.instrument?_untimed (c : Call) : c.untimed.instrument? = c.instrument? := by
  cases c <;> rfl

@[simp] theorem Call.ids_untimed (c : Call) : c.untimed.ids = c.ids := by
  cases c <;> rfl

def Entry.untimed (a : Entry) : Entry := { a with call := a.call.untimed }

/-- What the calls answer and do to a store does not depend on the latencies. -/
theorem Store.run_untimed (rules : Rules) (s : Store) (calls : List Call) :
    s.run rules (calls.map Call.untimed) =
      ((s.run rules calls).1, (s.run rules calls).2.map Entry.untimed) := by
  induction calls generalizing s with
  | nil => rfl
  | cons c rest ih =>
    have hcall : s.call rules c.untimed = s.call rules c := by
      cases c <;> rfl
    have hentry : s.entry rules c.untimed = (s.entry rules c).untimed := by
      simp only [entry, Entry.untimed, hcall, Call.instrument?_untimed]
    rw [List.map_cons, run, run, hcall, hentry, ih, List.map_cons]

/-- The calls for an instrument, without their latencies. -/
def callsFor (i : Instrument) (calls : List Call) : List Call :=
  (calls.filter fun c => c.instrument? = some i).map Call.untimed

/-! ### One instrument -/

/-- All that a run shows of an instrument: the entries of its calls, and at the end its book and
its live orders. -/
structure View where
  entries : List Entry
  book : Option Book
  orders : List Order

namespace Dispatcher

/-- What is seen of an instrument after the calls. -/
def view (d : Dispatcher) (calls : List Call) (i : Instrument) : View where
  entries := ((d.run calls).2.filter fun a => a.call.instrument? = some i).map Entry.untimed
  book := (d.run calls).1.store.book? i
  orders := (d.run calls).1.store.orders.ofInstrument i

/-- What is seen of an instrument depends on its own calls, its own book and its own orders. -/
theorem view_restrict {d : Dispatcher} (hs : d.store.Sound) {calls : List Call} {i : Instrument}
    (howned : d.store.Owned (fun j => decide (j = i)) calls)
    (ha : KeepApart (fun j => decide (j = i)) calls) :
    ({ d with store := d.store.restrict fun j => decide (j = i) }).view
      (calls.filter fun c => c.instrument? = some i) i = d.view calls i := by
  have hkept : ∀ (c : Call) j, c.instrument? = some j →
      decide (c.instrument? = some i) = decide (j = i) := fun c j hj => by simp [hj]
  have hrun := Store.run_restrict hs d.rules hkept howned ha
  obtain ⟨hwhole, -, hentries⟩ := d.run_eq calls
  obtain ⟨hown, -, hentries'⟩ :=
    run_eq { d with store := d.store.restrict fun j => decide (j = i) }
      (calls.filter fun c => c.instrument? = some i)
  rw [hrun] at hown hentries'
  simp only [view, hwhole, hentries, hown, hentries', List.filter_filter, Bool.and_self,
    View.mk.injEq, true_and]
  refine ⟨?_, OrderTable.ofInstrument_restrict (by simp)⟩
  rw [Store.book?_restrict, if_pos (by simp)]

/-- In a run from the empty store it depends on its own calls only. -/
theorem view_filter {d : Dispatcher} (hd : d.store = .empty) {calls : List Call}
    (ha : KeepApart id calls) (i : Instrument) :
    d.view (calls.filter fun c => c.instrument? = some i) i = d.view calls i := by
  have howned : d.store.Owned (fun j => decide (j = i)) calls := by
    intro id o hlive
    simp [hd, Store.empty] at hlive
  rw [← view_restrict (hd ▸ Store.sound_empty) howned (ha.comp fun j => decide (j = i)), hd,
    Store.restrict_empty, ← hd]

/-- The latencies are not seen. -/
theorem view_untimed (d : Dispatcher) (calls : List Call) (i : Instrument) :
    d.view (calls.map Call.untimed) i = d.view calls i := by
  obtain ⟨hstore, -, hentries⟩ := d.run_eq calls
  obtain ⟨hstore', -, hentries'⟩ := d.run_eq (calls.map Call.untimed)
  rw [Store.run_untimed] at hstore' hentries'
  have htwice : Entry.untimed ∘ Entry.untimed = Entry.untimed := by
    funext a
    rcases a with ⟨⟨e, latency⟩ | i, answer, book⟩ <;> rfl
  simp only [view, hstore, hentries, hstore', hentries', List.filter_map, List.map_map, htwice]
  simp only [Function.comp_def, Entry.untimed, Call.instrument?_untimed]

theorem view_eq_of_untimed (d : Dispatcher) {calls other : List Call}
    (h : calls.map Call.untimed = other.map Call.untimed) (i : Instrument) :
    d.view calls i = d.view other i := by
  rw [← view_untimed, h, view_untimed]

end Dispatcher

/-- Calls that go to each instrument in the same order name the same orders for it. -/
theorem KeepApart.of_callsFor_eq {calls other : List Call} (ha : KeepApart id calls)
    (h : ∀ i, callsFor i other = callsFor i calls) : KeepApart id other := by
  have hmem : ∀ c ∈ other, ∀ i ∈ c.instrument?, ∃ b ∈ calls, b.untimed = c.untimed := by
    intro c hc i hi
    have hc : c.untimed ∈ callsFor i other :=
      List.mem_map_of_mem (List.mem_filter.2 ⟨hc, decide_eq_true hi⟩)
    rw [h i] at hc
    obtain ⟨b, hb, hbc⟩ := List.mem_map.1 hc
    exact ⟨b, (List.mem_filter.1 hb).1, hbc⟩
  intro c hc c' hc' i hi i' hi' id hid hid'
  obtain ⟨b, hb, hbc⟩ := hmem c hc i hi
  obtain ⟨b', hb', hbc'⟩ := hmem c' hc' i' hi'
  rw [← Call.instrument?_untimed, ← hbc, Call.instrument?_untimed] at hi
  rw [← Call.instrument?_untimed, ← hbc', Call.instrument?_untimed] at hi'
  rw [← Call.ids_untimed, ← hbc, Call.ids_untimed] at hid
  rw [← Call.ids_untimed, ← hbc', Call.ids_untimed] at hid'
  exact ha b hb b' hb' i hi i' hi' id hid hid'

/-- Where no number of an order is named for two instruments, what a run shows of an instrument
is what its own calls alone lead to. So it is the same however the calls for the instruments
are interleaved, and however long they take. -/
theorem run_isolates_instruments {c : EngineConfig} {d : Dispatcher}
    (hd : Dispatcher.make c = .ok d) {calls : List Call} (ha : KeepApart id calls) :
    (∀ i own, own.map Call.untimed = callsFor i calls → d.view calls i = d.view own i) ∧
    ∀ other, (∀ i, callsFor i other = callsFor i calls) → ∀ i, d.view other i = d.view calls i := by
  have hempty := (Dispatcher.store_of_make hd).1
  constructor
  · intro i own hown
    rw [← Dispatcher.view_filter hempty ha i]
    exact d.view_eq_of_untimed hown.symm i
  · intro other hother i
    rw [← Dispatcher.view_filter hempty (ha.of_callsFor_eq hother) i,
      ← Dispatcher.view_filter hempty ha i]
    exact d.view_eq_of_untimed (hother i) i

/-- A duplicate corrupts the second instrument; the first one trades on. -/
def duplicateElsewhere : List Call :=
  [.process ⟨default, .addOrder ⟨1, ⟨1⟩, .buy, ⟨10⟩, ⟨5⟩⟩⟩ 0,
    .process ⟨default, .addOrder ⟨2, ⟨2⟩, .sell, ⟨11⟩, ⟨5⟩⟩⟩ 0,
    .process ⟨default, .addOrder ⟨2, ⟨2⟩, .sell, ⟨12⟩, ⟨5⟩⟩⟩ 0,
    .process ⟨default, .orderCancel ⟨1⟩ 1 ⟨2⟩⟩ 0]

theorem run_isolates_instruments_duplicateElsewhere :
    ∃ d, Dispatcher.make .standard = .ok d ∧ KeepApart id duplicateElsewhere ∧
      d.view duplicateElsewhere ⟨1⟩ =
        d.view [.process ⟨default, .addOrder ⟨1, ⟨1⟩, .buy, ⟨10⟩, ⟨5⟩⟩⟩ 3,
          .process ⟨default, .orderCancel ⟨1⟩ 1 ⟨2⟩⟩ 4] ⟨1⟩ := by
  obtain ⟨d, hd⟩ : ∃ d, Dispatcher.make .standard = .ok d := ⟨_, rfl⟩
  have ha : KeepApart id duplicateElsewhere := by decide
  exact ⟨d, hd, ha, (run_isolates_instruments hd ha).1 ⟨1⟩ _ rfl⟩

end TopOfBook
