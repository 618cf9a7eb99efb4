import Std.Data.String.ToNat
import TopOfBook.Proofs.PriceText
import TopOfBook.Proofs.Publication

/-! The line of an update. It falls apart at its blanks into six words: the feed time, the
instrument, and the price and the shares of either side. An empty side is written with a price
that a level may have as well, and is told by its shares alone: no level is without any. So
updates with the same line have the same feed time, instrument and inside. -/

namespace TopOfBook

/-! ### Numbers in words -/

theorem blank_notMem_repr (n : Nat) : ' ' ∉ (Nat.repr n).toList := by
  rw [Nat.toList_repr]
  exact FixedPoint.notMem_of_isDigit (fun _ => Price.isDigit_toDigits) (by decide)

theorem Timestamp.repr_inj {a b : Timestamp} :
    Nat.repr a.nanos.toNat = Nat.repr b.nanos.toNat ↔ a = b := by
  refine ⟨fun h => ?_, fun h => by rw [h]⟩
  cases a; cases b
  exact congrArg mk (UInt64.toNat_inj.1 (Nat.repr_inj.1 h))

theorem Quantity.render_inj {a b : Quantity} : a.render = b.render ↔ a = b := by
  refine ⟨fun h => ?_, congrArg render⟩
  exact toNat_inj (Nat.repr_inj.1 h)

theorem Instrument.render_inj {i j : Instrument} : i.render = j.render ↔ i = j := by
  refine ⟨fun h => ?_, congrArg render⟩
  rw [render, render, String.append_right_inj, Nat.repr_inj, UInt32.toNat_inj] at h
  exact eq_of_id h

theorem Instrument.blank_notMem_render (i : Instrument) : ' ' ∉ i.render.toList := by
  rw [render, String.toList_append, List.mem_append]
  exact not_or.2 ⟨by decide, blank_notMem_repr _⟩

/-! ### The sides of an inside -/

namespace Side

/-- The price written for an empty side. -/
def priceIfEmpty : Side → Price
  | buy => .zero
  | sell => .feedMaximum

/-- Where the price of a side stands among the words of a line. The shares follow. -/
def column : Side → Nat
  | buy => 2
  | sell => 4

end Side

namespace Quote

variable {q r : Quote} {s : Side}

def best (q : Quote) : Side → Option Level
  | .buy => q.bid
  | .sell => q.ask

theorem ext_best (h : ∀ s, q.best s = r.best s) : q = r := by
  cases q; cases r
  exact congrArg₂ Quote.mk (h .buy) (h .sell)

/-- A level that is there has shares. -/
def Filled (q : Quote) : Prop := ∀ s l, q.best s = some l → 0 < l.quantity.toNat

/-- The level that is written for a side. -/
def shown (q : Quote) (s : Side) : Level := (q.best s).getD ⟨s.priceIfEmpty, .zero⟩

theorem Filled.shown_eq_zero_iff (hq : q.Filled) :
    (q.shown s).quantity = .zero ↔ q.best s = none := by
  unfold shown
  cases h : q.best s with
  | none => simp
  | some l =>
    have hsome : l.quantity ≠ .zero := fun hzero => (hq s l h).ne' (by rw [hzero]; rfl)
    simpa using hsome

theorem Filled.shown_inj (hq : q.Filled) (hr : r.Filled) :
    q.shown s = r.shown s ↔ q.best s = r.best s := by
  refine ⟨fun h => ?_, fun h => by rw [shown, shown, h]⟩
  -- The same shares are shown, so either both sides are empty or none is.
  have hnone : q.best s = none ↔ r.best s = none := by
    rw [← hq.shown_eq_zero_iff, ← hr.shown_eq_zero_iff, h]
  unfold shown at h
  cases hqs : q.best s with
  | none => exact (hnone.1 hqs).symm
  | some l =>
    cases hrs : r.best s with
    | none => simp [hnone.2 hrs] at hqs
    | some m => simpa [hqs, hrs] using h

def words (q : Quote) (s : Side) : List String :=
  [(q.shown s).price.render, (q.shown s).quantity.render]

theorem words_inj : q.words s = r.words s ↔ q.shown s = r.shown s := by
  simp only [words, List.cons.injEq, Price.render_inj, Quantity.render_inj, and_true]
  cases q.shown s
  cases r.shown s
  rw [Level.mk.injEq]

end Quote

theorem Book.best_inside (b : Book) (s : Side) : b.inside.best s = (b.onSide s).best? := by
  cases s <;> rfl

theorem Book.Filled.inside {b : Book} (hb : b.Filled) : b.inside.Filled := by
  intro s l hl
  rw [best_inside] at hl
  exact hb s l.price l.quantity (BookSide.best?_eq_some_iff.1 hl).1

/-- The levels in a published inside have shares. -/
theorem Dispatcher.filled_of_published {c : EngineConfig} {d : Dispatcher}
    (hd : make c = .ok d) (calls : List Call) {e : Event} {latency : UInt64} {u : InsideUpdate}
    (h : ((d.run calls).1.process e latency).2.outcome = .ok (some u)) : u.inside.Filled := by
  have hs := sound_run_of_make hd calls
  have hmoves := process_moves hs e latency
  have htells := hmoves.tells (Store.current_run_of_make hd calls) (hmoves.instrument_of_update h)
  rw [h] at htells
  cases htells with
  | update _ _ _ _ hinside =>
    have hbook : u.inside = (((d.run calls).1.process e latency).1.store.book
        u.instrument).inside := by
      rw [← Store.inside?_getD, hinside, Option.getD_some]
    rw [hbook]
    exact ((hmoves.sound hs).book_filled _).inside

/-! ### Lines -/

namespace InsideUpdate

variable {u v : InsideUpdate}

def words (u : InsideUpdate) : List String :=
  [Nat.repr u.header.fed.nanos.toNat, u.instrument.render] ++ u.inside.words .buy ++
    u.inside.words .sell

theorem toList_render (u : InsideUpdate) :
    u.render.toList = [' '].intercalate (u.words.map String.toList) := by
  simp [render, words, Quote.words, Quote.render, Quote.shown, Quote.best, Side.priceIfEmpty]

theorem blank_notMem_of_mem_words {w : String} (hw : w ∈ u.words) : ' ' ∉ w.toList := by
  simp only [words, Quote.words, List.mem_append, List.mem_cons, List.not_mem_nil, or_false] at hw
  rcases hw with ((rfl | rfl) | rfl | rfl) | rfl | rfl
  · exact blank_notMem_repr _
  · exact u.instrument.blank_notMem_render
  · exact Price.blank_notMem_render _
  · exact blank_notMem_repr _
  · exact Price.blank_notMem_render _
  · exact blank_notMem_repr _

/-- Between its blanks a line has its words. -/
theorem splitOn_render (u : InsideUpdate) :
    u.render.toList.splitOn ' ' = u.words.map String.toList := by
  rw [toList_render, List.splitOn_intercalate ' ' _ (by simp [words])]
  intro w hw
  obtain ⟨word, hword, rfl⟩ := List.mem_map.1 hw
  exact blank_notMem_of_mem_words hword

theorem getElem?_column (u : InsideUpdate) (s : Side) :
    u.words[s.column]? = some (u.inside.shown s).price.render ∧
      u.words[s.column + 1]? = some (u.inside.shown s).quantity.render := by
  cases s <;> exact ⟨rfl, rfl⟩

theorem words_inj : u.words = v.words ↔ u.header.fed = v.header.fed ∧
    u.instrument = v.instrument ∧ ∀ s, u.inside.words s = v.inside.words s := by
  have hsides : (∀ s, u.inside.words s = v.inside.words s) ↔
      u.inside.words .buy = v.inside.words .buy ∧ u.inside.words .sell = v.inside.words .sell :=
    ⟨fun h => ⟨h .buy, h .sell⟩, fun h s => by cases s; exacts [h.1, h.2]⟩
  rw [hsides]
  simp only [words, Quote.words, List.cons_append, List.nil_append, List.cons.injEq,
    Timestamp.repr_inj, Instrument.render_inj, and_true, and_assoc]

/-- The line of an update tells its feed time, its instrument and its inside. -/
theorem render_inj (hu : u.inside.Filled) (hv : v.inside.Filled) : u.render = v.render ↔
    u.header.fed = v.header.fed ∧ u.instrument = v.instrument ∧ u.inside = v.inside := by
  constructor
  · intro h
    have hsplit : u.words.map String.toList = v.words.map String.toList := by
      rw [← splitOn_render, ← splitOn_render, h]
    have hwords : u.words = v.words :=
      List.map_injective_iff.2 (fun _ _ => String.toList_inj.1) hsplit
    obtain ⟨hfed, hinstrument, hsides⟩ := words_inj.1 hwords
    refine ⟨hfed, hinstrument, Quote.ext_best fun s => ?_⟩
    exact (hu.shown_inj hv).1 (Quote.words_inj.1 (hsides s))
  · rintro ⟨hfed, hinstrument, hinside⟩
    rw [render, render, hfed, hinstrument, hinside]

theorem price_column (u : InsideUpdate) (s : Side) : ∃ x : FixedPoint 4,
    (u.render.toList.splitOn ' ')[s.column]? = some x.text.toList ∧
      x.value = (u.inside.shown s).price.ticks.toInt / 10000 := by
  refine ⟨(u.inside.shown s).price.decimal, ?_, Price.value_decimal _⟩
  rw [splitOn_render, List.getElem?_map, (u.getElem?_column s).1, Price.render_eq_text,
    Option.map_some]

theorem shares_column (hu : u.inside.Filled) (s : Side) :
    u.inside.best s = none ↔ (u.render.toList.splitOn ' ')[s.column + 1]? = some ['0'] := by
  have hzero : ['0'] = (Quantity.render .zero).toList := rfl
  rw [splitOn_render, List.getElem?_map, (u.getElem?_column s).2, Option.map_some, hzero,
    Option.some_inj, String.toList_inj, Quantity.render_inj, hu.shown_eq_zero_iff]

/-- Updates with a line in common have the feed time, the instrument and the inside in common, as
long as their levels have shares, which those of every published update do. At its blanks a line
falls apart into six words: a price is exact, with four digits after the point, and the shares
after it are zero on an empty side only. -/
theorem lines_faithful :
    (∀ u v : InsideUpdate, u.inside.Filled → v.inside.Filled → (u.render = v.render ↔
      u.header.fed = v.header.fed ∧ u.instrument = v.instrument ∧ u.inside = v.inside)) ∧
    (∀ u : InsideUpdate,
      let words := u.render.toList.splitOn ' '
      words.length = 6 ∧
      (∀ s : Side, ∃ x : FixedPoint 4, words[s.column]? = some x.text.toList ∧
        x.value = (u.inside.shown s).price.ticks.toInt / 10000) ∧
      (u.inside.Filled → ∀ s : Side,
        u.inside.best s = none ↔ words[s.column + 1]? = some ['0'])) ∧
    ∀ c d, Dispatcher.make c = .ok d → ∀ calls e latency u,
      ((d.run calls).1.process e latency).2.outcome = .ok (some u) → u.inside.Filled := by
  refine ⟨fun u v hu hv => render_inj hu hv, fun u => ⟨?_, u.price_column, shares_column⟩, ?_⟩
  · rw [splitOn_render, List.length_map]
    rfl
  · exact fun c d hd calls e latency u h => Dispatcher.filled_of_published hd calls h

/-- The lowest bid there can be, and the given offer, at the end of time. -/
def lowestBid (offer : Option Level) : InsideUpdate :=
  ⟨⟨4294967295⟩, ⟨.zero, ⟨18446744073709551615⟩, 1, 0⟩,
    ⟨some ⟨⟨Int64.minValue⟩, ⟨7⟩⟩, offer⟩⟩

/-- An order to buy. -/
def firstBid : Event := ⟨default, .addOrder ⟨1, ⟨1⟩, .buy, ⟨7⟩, ⟨12⟩⟩⟩

/-- An offer at the price that is written for none. -/
theorem lines_faithful_offerAtMaximum :
    (lowestBid (some ⟨.feedMaximum, ⟨1⟩⟩)).render =
        "18446744073709551615 SYM_4294967295 -922337203685477.5808 7 200000.0000 1" ∧
      (lowestBid (some ⟨.feedMaximum, ⟨1⟩⟩)).render ≠ (lowestBid none).render ∧
      ((lowestBid none).render.toList.splitOn ' ')[5]? = some ['0'] ∧
      ∃ d u, Dispatcher.make .standard = .ok d ∧
        ((d.run []).1.process firstBid 0).2.outcome = .ok (some u) ∧ u.inside.Filled := by
  have hfilled : ∀ offer : Option Level, (∀ l, offer = some l → 0 < l.quantity.toNat) →
      (lowestBid offer).inside.Filled := by
    intro offer hoffer s l hl
    cases s with
    | buy => cases hl; decide
    | sell => exact hoffer l hl
  have hoffer : (lowestBid (some ⟨.feedMaximum, ⟨1⟩⟩)).inside.Filled := by
    refine hfilled _ ?_
    rintro l ⟨⟩
    decide
  have hnone : (lowestBid none).inside.Filled := hfilled _ nofun
  obtain ⟨hequal, hwords, hpublished⟩ := lines_faithful
  refine ⟨by decide, fun h => ?_, ((hwords _).2.2 hnone .sell).1 rfl, ?_⟩
  · obtain ⟨-, -, hinside⟩ := (hequal _ _ hoffer hnone).1 h
    exact absurd (congrArg Quote.ask hinside) (by decide)
  · obtain ⟨d, hd⟩ : ∃ d, Dispatcher.make .standard = .ok d := ⟨_, rfl⟩
    have hprocess : ((d.run []).1.process firstBid 0).2.outcome =
        ((Store.empty.run ⟨.eventPrice, false⟩ []).1.apply ⟨.eventPrice, false⟩ firstBid).2 :=
      (Dispatcher.process_of_make hd [] firstBid 0).2
    have hfirst : ((d.run []).1.process firstBid 0).2.outcome =
        .ok (some ⟨⟨1⟩, default, ⟨some ⟨⟨7⟩, ⟨12⟩⟩, none⟩⟩) := by
      rw [hprocess]
      cbv
    exact ⟨d, _, hd, hfirst, hpublished _ d hd [] firstBid 0 _ hfirst⟩

end InsideUpdate

end TopOfBook
