import TopOfBook.Proofs.Interest

/-! A replacement is a deletion and an addition in one event. It checks all that they would check,
with the level of the new order looked at when the shares of the old one are gone, and ends where
they end. What is published in between makes no difference. -/

namespace TopOfBook

namespace Interest

variable {i : Instrument} {x z : Interest} {oldId newId : OrderId} {side : Side} {price : Price}
  {quantity : Quantity}

/-- An order can be replaced if and only if it can be taken off, and the new one can be added to
what remains. -/
theorem permits_replace_iff (hne : newId ≠ oldId)
    (hside : ∀ old, x.orders.find? oldId = some old → old.side = side) :
    x.Permits i (.replace oldId newId price quantity) z ↔
      ∃ y, x.Permits i (.take oldId none none) y ∧
        y.Permits i (.add ⟨newId, i, side, price, quantity⟩) z := by
  constructor
  · intro h
    cases h with
    | replace _ _ _ _ old shares hlive hown hfree hquantity hshares hroom =>
      have hside' := hside old hlive
      subst hside' hown
      have htake := Permits.take (x := x) oldId none none old .zero shares hlive rfl
        (by rw [Option.getD_none, Quantity.toNat_zero, Nat.zero_add]) hshares
      have hadd := Permits.add (i := old.instrument)
        (x := ⟨shares, x.orders.put oldId { old with quantity := .zero }⟩)
        ⟨newId, old.instrument, old.side, price, quantity⟩ hquantity
        (OrderTable.find?_put_zero_of_free hfree old) hroom
      exact ⟨_, htake, hadd⟩
  · rintro ⟨y, htake, hadd⟩
    cases htake with
    | take _ _ _ old rest shares hlive hown hrest hshares =>
      obtain rfl : rest = .zero := Quantity.toNat_inj (by
        rw [Option.getD_none] at hrest
        rw [Quantity.toNat_zero]
        omega)
      cases hadd with
      | add _ hquantity hfree hroom =>
        have hside' := hside old hlive
        subst hside' hown
        rw [OrderTable.find?_put, if_neg hne] at hfree
        exact .replace oldId newId price quantity old shares hlive rfl hfree hquantity hshares
          hroom

end Interest

namespace Store

variable {rules : Rules} {s : Store} {i : Instrument} {oldId newId : OrderId} {side : Side}
  {price : Price} {quantity : Quantity} {replacing deleting adding : Event}

section

variable (hs : s.Sound) (hc : s.Current) (hne : newId ≠ oldId)
  (hreplacing : replacing.message = .orderReplace i oldId newId price quantity)
  (hdeleting : deleting.message = .orderDelete i oldId)
  (hadding : adding.message.added? = some ⟨newId, i, side, price, quantity⟩)
  (hside : ∀ old, s.orders.find? oldId = some old → old.side = side)

include hs hc hne hreplacing hdeleting hadding hside

/-- After a replacement that goes through, so do a deletion and an addition in its place, and they
end in the same store. -/
theorem delete_add_of_replace {u : Option InsideUpdate}
    (h : (s.apply rules replacing).2 = .ok u) :
    (∃ v, (s.apply rules deleting).2 = .ok v) ∧
      (∃ v, ((s.apply rules deleting).1.apply rules adding).2 = .ok v) ∧
      ((s.apply rules deleting).1.apply rules adding).1 = (s.apply rules replacing).1 := by
  have hi : replacing.instrument? = some i := congrArg Message.instrument? hreplacing
  have hi₁ : deleting.instrument? = some i := congrArg Message.instrument? hdeleting
  have hi₂ : adding.instrument? = some i := Message.instrument?_of_added? hadding
  obtain ⟨hthrough, hpermits, -⟩ := through_of_apply hs hc hi h
  rw [hreplacing] at hpermits
  obtain ⟨y, htake, hadd⟩ := (Interest.permits_replace_iff hne hside).1 hpermits
  obtain ⟨hok₁, hthrough₁, hsame⟩ := apply_of_permits (y := y) rules hs hi₁ hthrough.opened
    (by rw [hdeleting]; exact htake)
  have hs₁ := hs.apply rules deleting
  have hc₁ : (s.apply rules deleting).1.Current := hc.apply hs deleting
  obtain ⟨hok₂, hthrough₂, hsame₂⟩ := apply_of_permits rules hs₁ hi₂ hthrough₁.stays
    (by rw [hsame, Message.action_of_added? _ hadding]; exact hadd)
  refine ⟨hok₁, hok₂, ?_⟩
  exact hthrough.eq_of_interest (hthrough₁.trans hthrough₂) (hs.apply rules replacing)
    (hs₁.apply rules adding) (hc.apply hs replacing) (hc₁.apply hs₁ adding) hsame₂

/-- Where a deletion goes through and an addition after it, so does a replacement. -/
theorem replace_of_delete_add {u v : Option InsideUpdate}
    (hdeleted : (s.apply rules deleting).2 = .ok u)
    (hadded : ((s.apply rules deleting).1.apply rules adding).2 = .ok v) :
    ∃ w, (s.apply rules replacing).2 = .ok w := by
  have hi : replacing.instrument? = some i := congrArg Message.instrument? hreplacing
  have hi₁ : deleting.instrument? = some i := congrArg Message.instrument? hdeleting
  have hi₂ : adding.instrument? = some i := Message.instrument?_of_added? hadding
  obtain ⟨hthrough, htake, -⟩ := through_of_apply hs hc hi₁ hdeleted
  obtain ⟨-, hadd, -⟩ := through_of_apply (hs.apply rules deleting)
    (hc.apply hs deleting) hi₂ hadded
  rw [hdeleting] at htake
  rw [Message.action_of_added? _ hadding] at hadd
  have hpermits := (Interest.permits_replace_iff hne hside).2 ⟨_, htake, hadd⟩
  exact (apply_of_permits rules hs hi hthrough.opened (by rw [hreplacing]; exact hpermits)).1

end

end Store

/-- A replacement by another number goes through if and only if a deletion of the old order goes
through, and after it an addition of the new one on the same side. They lead to the same store,
where the book is open and remembers its inside. The replacement publishes that inside if it is
another one than before, and nothing otherwise. -/
theorem run_replace_eq_delete_add {c : EngineConfig} {d : Dispatcher}
    (hd : Dispatcher.make c = .ok d) (calls : List Call) {i : Instrument}
    {oldId newId : OrderId} (hne : newId ≠ oldId) {side : Side} {price : Price}
    {quantity : Quantity} {replacing deleting adding : Event}
    (hreplacing : replacing.message = .orderReplace i oldId newId price quantity)
    (hdeleting : deleting.message = .orderDelete i oldId)
    (hadding : adding.message.added? = some ⟨newId, i, side, price, quantity⟩)
    (hside : ∀ old, (d.run calls).1.store.orders.find? oldId = some old → old.side = side)
    (latency latency₁ latency₂ : UInt64) :
    let before := (d.run calls).1
    let replaced := before.process replacing latency
    let deleted := before.process deleting latency₁
    let added := deleted.1.process adding latency₂
    ((∃ u, replaced.2.outcome = .ok u) ↔
      (∃ u, deleted.2.outcome = .ok u) ∧ ∃ u, added.2.outcome = .ok u) ∧
    ∀ u, replaced.2.outcome = .ok u →
      replaced.1.store = added.1.store ∧
      (replaced.1.store.book i).corruption = none ∧
      (replaced.1.store.book i).lastInside = (replaced.1.store.book i).inside ∧
      u = if (replaced.1.store.book i).inside = (before.store.book i).inside then none
        else some ⟨i, replacing.header, (replaced.1.store.book i).inside⟩ := by
  have hs := Dispatcher.sound_run_of_make hd calls
  have hc := Store.current_run_of_make hd calls
  have hi : replacing.instrument? = some i := congrArg Message.instrument? hreplacing
  intro before replaced deleted added
  refine ⟨⟨?_, ?_⟩, fun u hu => ?_⟩
  · rintro ⟨u, hu⟩
    obtain ⟨hdeleted, hadded, -⟩ :=
      Store.delete_add_of_replace hs hc hne hreplacing hdeleting hadding hside hu
    exact ⟨hdeleted, hadded⟩
  · rintro ⟨⟨u, hdeleted⟩, v, hadded⟩
    exact Store.replace_of_delete_add hs hc hne hreplacing hdeleting hadding hside hdeleted hadded
  · obtain ⟨-, -, hsame⟩ :=
      Store.delete_add_of_replace hs hc hne hreplacing hdeleting hadding hside hu
    obtain ⟨hthrough, -, hupdate⟩ := Store.through_of_apply hs hc hi hu
    exact ⟨hsame.symm, Book.isCorrupted_eq_false_iff.1 hthrough.stays,
      hc.apply hs replacing i hthrough.stays, hupdate⟩

/-- A bid behind the best one. -/
def twoBidLevels : List Call :=
  [.process ⟨default, .addOrder ⟨1, ⟨1⟩, .buy, ⟨100⟩, ⟨10⟩⟩⟩ 0,
    .process ⟨default, .addOrder ⟨2, ⟨1⟩, .buy, ⟨99⟩, ⟨5⟩⟩⟩ 0]

/-- Moves the bid ahead of the best one. -/
def aheadOfBest : Event := ⟨default, .orderReplace ⟨1⟩ 2 3 ⟨101⟩ ⟨7⟩⟩

theorem run_replace_eq_delete_add_aheadOfBest :
    ∃ d, Dispatcher.make .standard = .ok d ∧
      let before := (d.run twoBidLevels).1
      let replaced := before.process aheadOfBest 0
      let deleted := before.process ⟨default, .orderDelete ⟨1⟩ 2⟩ 0
      let added := deleted.1.process ⟨default, .addOrder ⟨3, ⟨1⟩, .buy, ⟨101⟩, ⟨7⟩⟩⟩ 0
      replaced.2.outcome = .ok (some ⟨⟨1⟩, default, ⟨some ⟨⟨101⟩, ⟨7⟩⟩, none⟩⟩) ∧
      (∃ u, added.2.outcome = .ok u) ∧ replaced.1.store = added.1.store := by
  obtain ⟨d, hd⟩ : ∃ d, Dispatcher.make .standard = .ok d := ⟨_, rfl⟩
  have hstore : (d.run twoBidLevels).1.store =
      (Store.empty.run ⟨.eventPrice, false⟩ twoBidLevels).1 :=
    (Dispatcher.run_of_make hd twoBidLevels).1
  have hprocess : ((d.run twoBidLevels).1.process aheadOfBest 0).2.outcome =
      ((Store.empty.run ⟨.eventPrice, false⟩ twoBidLevels).1.apply ⟨.eventPrice, false⟩
        aheadOfBest).2 :=
    (Dispatcher.process_of_make hd twoBidLevels aheadOfBest 0).2
  have hreplaced : ((d.run twoBidLevels).1.process aheadOfBest 0).2.outcome =
      .ok (some ⟨⟨1⟩, default, ⟨some ⟨⟨101⟩, ⟨7⟩⟩, none⟩⟩) := by
    rw [hprocess]
    cbv
  have hside : ∀ old, (d.run twoBidLevels).1.store.orders.find? 2 = some old →
      old.side = .buy := by
    intro old hold
    have hlive : (d.run twoBidLevels).1.store.orders.find? 2 =
        some ⟨2, ⟨1⟩, .buy, ⟨99⟩, ⟨5⟩⟩ := by
      rw [hstore]
      cbv
    rw [hlive] at hold
    cases hold
    rfl
  have hne : (3 : OrderId) ≠ 2 := by decide
  have hreplacing : aheadOfBest.message = .orderReplace ⟨1⟩ 2 3 ⟨101⟩ ⟨7⟩ := rfl
  have hdeleting : (Event.mk default (.orderDelete ⟨1⟩ 2)).message = .orderDelete ⟨1⟩ 2 := rfl
  have hadding : (Event.mk default (.addOrder ⟨3, ⟨1⟩, .buy, ⟨101⟩, ⟨7⟩⟩)).message.added? =
      some ⟨3, ⟨1⟩, .buy, ⟨101⟩, ⟨7⟩⟩ := rfl
  obtain ⟨hiff, hsame⟩ := run_replace_eq_delete_add hd twoBidLevels hne hreplacing hdeleting
    hadding hside 0 0 0
  exact ⟨d, hd, hreplaced, (hiff.1 ⟨_, hreplaced⟩).2, (hsame _ hreplaced).1⟩

end TopOfBook
