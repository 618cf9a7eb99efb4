import Mathlib.Data.List.Chain
import Mathlib.Data.List.Permutation
import TopOfBook.Proofs.Runs

/-! An update is published exactly when the inside changes. The inside is not compared after a
change that touched no best level, neither before nor afterwards, and such a change leaves it as
it was. So an open book always remembers its inside, and the updates of an instrument since its
last reset, read one after the other, tell its inside at any time. -/

namespace TopOfBook

/-- A message that touched no best level left the inside alone. -/
theorem Desk.Moves.inside_of_untouched {d d' : Desk} {a : Action} {effect : Effect}
    (h : d.Moves a d' (.ok effect)) (he : effect ≠ .changed true) :
    d'.book.inside = d.book.inside := by
  cases h with
  | idle => rfl
  | takenNothing => rfl
  | added o book touched hfree hbook =>
    cases touched with
    | true => exact absurd rfl he
    | false => exact Book.inside_add_of_untouched hbook
  | taken id quantity price o n rest book touched hlive hown hrest hbook =>
    cases touched with
    | true => exact absurd rfl he
    | false => exact Book.inside_reduce_of_untouched hbook
  | replaced => exact absurd rfl he

namespace Store

variable {rules : Rules} {s s' : Store} {e : Event} {outcome : Outcome} {i : Instrument}

/-- Every open book remembers its inside. -/
def Current (s : Store) : Prop :=
  ∀ i, (s.book i).isCorrupted = false → (s.book i).lastInside = (s.book i).inside

theorem current_empty : empty.Current := by
  intro i _
  simp [book, Book.empty, Book.inside]
  rfl

@[simp] theorem inside_publish (rules : Rules) (b : Book) (effect : Effect) :
    (publish rules b effect).1.inside = b.inside :=
  Book.inside_eq_of_onSide fun side => onSide_publish rules b effect side

/-- Publishing remembers the inside, and gives it when it is another one than before. -/
theorem publish_spec {b before : Book} {effect : Effect} (rules : Rules)
    (hlast : b.lastInside = before.inside)
    (hsame : effect ≠ .changed true → b.inside = before.inside) :
    (publish rules b effect).1.lastInside = b.inside ∧
      (publish rules b effect).2 = if b.inside = before.inside then none else some b.inside := by
  cases effect with
  | nothing =>
    have h := hsame (by simp)
    exact ⟨hlast.trans h.symm, (if_pos h).symm⟩
  | changed touched =>
    unfold publish
    dsimp only
    split
    · exact ⟨Book.lastInside_publish b, hlast ▸ Book.publish_snd b⟩
    · have h := hsame (by simp_all)
      exact ⟨hlast.trans h.symm, (if_pos h).symm⟩

/-- What an event for an instrument tells of its inside. -/
inductive Tells (s : Store) (e : Event) (i : Instrument) (s' : Store) : Outcome → Prop
  | update (u : InsideUpdate) (hinstrument : u.instrument = i) (hheader : u.header = e.header)
      (hopen : (s.book i).isCorrupted = false) (hinside : s'.inside? i = some u.inside)
      (hchange : u.inside ≠ (s.book i).inside) : Tells s e i s' (.ok (some u))
  | silence (hopen : (s.book i).isCorrupted = false)
      (hsame : (s'.book i).inside = (s.book i).inside) : Tells s e i s' (.ok none)
  | refusal (r : Refusal) (hclosed : (s'.book i).isCorrupted = true) : Tells s e i s' (.error r)

theorem Moves.tells (h : Moves rules s e s' outcome) (hc : s.Current)
    (hi : e.instrument? = some i) : Tells s e i s' outcome := by
  cases h with
  | ignored hnone =>
    rw [hi] at hnone
    cases hnone
  | rejected j hj hclosed =>
    obtain rfl : j = i := Option.some.inj (hj.symm.trans hi)
    exact .refusal _ hclosed
  | failed j d fault hj hopen hdesk =>
    obtain rfl : j = i := Option.some.inj (hj.symm.trans hi)
    refine .refusal _ ?_
    rw [book_set, if_pos rfl, Book.isCorrupted_markCorrupted]
  | done j d effect hj hopen hdesk =>
    obtain rfl : j = i := Option.some.inj (hj.symm.trans hi)
    obtain ⟨-, hpublished⟩ := publish_spec rules
      (hdesk.sameMarks.lastInside.trans (hc j hopen)) hdesk.inside_of_untouched
    rw [hpublished]
    split
    · refine .silence hopen ?_
      rw [book_set, if_pos rfl, inside_publish]
      assumption
    · refine .update _ rfl rfl hopen ?_ ‹_›
      rw [inside?, book?_set, if_pos rfl, Option.map_some, inside_publish]

/-- An event that goes through found its book open, and publishes the inside if that has changed. -/
theorem Tells.of_ok {u : Option InsideUpdate} (h : Tells s e i s' (.ok u)) :
    (s.book i).isCorrupted = false ∧
      u = if (s'.book i).inside = (s.book i).inside then none
        else some ⟨i, e.header, (s'.book i).inside⟩ := by
  cases h with
  | update u hinstrument hheader hopen hinside hchange =>
    have hnow : (s'.book i).inside = u.inside := by
      rw [← inside?_getD, hinside, Option.getD_some]
    refine ⟨hopen, ?_⟩
    rw [hnow, if_neg hchange, ← hinstrument, ← hheader]
  | silence hopen hsame => exact ⟨hopen, (if_pos hsame).symm⟩

/-- An update is for the instrument of its event. -/
theorem Moves.instrument_of_update {u : InsideUpdate} (h : Moves rules s e s' outcome)
    (hu : outcome = .ok (some u)) : e.instrument? = some u.instrument := by
  cases h with
  | ignored | rejected | failed => cases hu
  | done i d effect hi =>
    obtain ⟨q, -, rfl⟩ := Option.map_eq_some_iff.1 (Except.ok.inj hu)
    exact hi

theorem Moves.current (h : Moves rules s e s' outcome) (hc : s.Current) : s'.Current := by
  intro i hopen
  by_cases hi : e.instrument? = some i
  · obtain ⟨d, effect, hwas, hdesk, rfl⟩ := h.of_open hi hopen
    rw [book_set, if_pos rfl, inside_publish]
    exact (publish_spec rules (hdesk.sameMarks.lastInside.trans (hc i hwas))
      hdesk.inside_of_untouched).1
  · rw [h.book_of_ne hi] at hopen ⊢
    exact hc i hopen

theorem Current.apply (hs : s.Sound) (hc : s.Current) (e : Event) : (s.apply rules e).1.Current :=
  (apply_moves rules hs.orders e).current hc

theorem Current.call (hs : s.Sound) (hc : s.Current) (c : Call) : (s.call rules c).1.Current := by
  cases c with
  | process e latency => exact hc.apply hs e
  | reset j =>
    intro i hi
    simp only [Store.call, hs.book_reset] at hi ⊢
    split
    · exact (Book.inside_empty _).symm
    · rename_i hne
      rw [if_neg hne] at hi
      exact hc i hi

theorem Current.run (hs : s.Sound) (hc : s.Current) (calls : List Call) :
    (s.run rules calls).1.Current :=
  run_invariant (fun _ c hs hc => hc.call hs c) hs hc calls

theorem current_run_of_make {c : EngineConfig} {d : Dispatcher} (h : Dispatcher.make c = .ok d)
    (calls : List Call) : (d.run calls).1.store.Current :=
  (Dispatcher.run_of_make h calls).1 ▸ current_empty.run sound_empty calls

/-! ### The updates since the last reset -/

/-- Keeps the insides that were published for an instrument since it was reset last. -/
def note (i : Instrument) (told : List Quote) (a : Entry) : List Quote :=
  match a.call, a.answer with
  | .reset j, _ => if j = i then [] else told
  | .process _ _, .outcome (.ok (some u)) =>
    if u.instrument = i then told ++ [u.inside] else told
  | _, _ => told

/-- The insides published for an instrument since its last reset, oldest first. -/
def published (i : Instrument) (trace : List Entry) : List Quote :=
  trace.foldl (note i) []

/-- Each inside told differs from the one before it, and the last one told is that of the book,
unless that is corrupted. At first the inside is empty. -/
structure Told (s : Store) (i : Instrument) (told : List Quote) : Prop where
  changes : (Quote.empty :: told).IsChain (· ≠ ·)
  last : (s.book i).isCorrupted = false → told.getLastD .empty = (s.book i).inside

theorem told_empty (i : Instrument) : Told empty i [] where
  changes := .singleton _
  last _ := by simp [book]

theorem Told.append {told : List Quote} {q : Quote} (ht : Told s i told)
    (hopen : (s.book i).isCorrupted = false) (hchange : q ≠ (s.book i).inside)
    (hinside : (s'.book i).inside = q) : Told s' i (told ++ [q]) where
  changes := by
    rw [← List.cons_append]
    refine ht.changes.append (.singleton q) fun x hx y hy => ?_
    have hlast : (Quote.empty :: told).getLast? = some (s.book i).inside := by
      rw [← ht.last hopen, List.getLast?_cons, List.getLastD_eq_getLast?]
    rw [hlast, Option.mem_some_iff] at hx
    rw [List.head?_cons, Option.mem_some_iff] at hy
    rw [← hx, ← hy]
    exact hchange.symm
  last _ := by rw [List.getLastD_concat, hinside]

theorem Tells.told {told : List Quote} (h : Tells s e i s' outcome) (ht : Told s i told)
    (latency : UInt64) (b : Option Book) :
    Told s' i (note i told ⟨.process e latency, .outcome outcome, b⟩) := by
  cases h with
  | update u hinstrument hheader hopen hinside hchange =>
    simp only [note, if_pos hinstrument]
    refine ht.append hopen hchange ?_
    rw [← inside?_getD, hinside, Option.getD_some]
  | silence hopen hsame => exact ⟨ht.changes, fun _ => (ht.last hopen).trans hsame.symm⟩
  | refusal r hclosed => exact ⟨ht.changes, fun h => by simp [hclosed] at h⟩

/-- Nothing is told of an instrument by events for others. -/
theorem Moves.note_of_ne (h : Moves rules s e s' outcome) (hi : e.instrument? ≠ some i)
    (told : List Quote) (latency : UInt64) (b : Option Book) :
    note i told ⟨.process e latency, .outcome outcome, b⟩ = told := by
  rcases ho : outcome with r | _ | u
  · rfl
  · rfl
  · refine if_neg ?_
    rintro rfl
    exact hi (h.instrument_of_update ho)

theorem Told.call {told : List Quote} (hs : s.Sound) (hc : s.Current) (ht : Told s i told)
    (rules : Rules) (c : Call) : Told (s.call rules c).1 i (note i told (s.entry rules c)) := by
  cases c with
  | reset j =>
    simp only [Store.call, entry, note]
    split
    · refine ⟨.singleton _, fun _ => ?_⟩
      rw [hs.book_reset, if_pos (Eq.symm ‹_›)]
      exact (Book.inside_empty i).symm
    · refine ⟨ht.changes, ?_⟩
      rw [hs.book_reset, if_neg (Ne.symm ‹_›)]
      exact ht.last
  | process e latency =>
    have hmoves := apply_moves rules hs.orders e
    by_cases hi : e.instrument? = some i
    · exact (hmoves.tells hc hi).told ht latency _
    · simp only [Store.call, entry]
      rw [hmoves.note_of_ne hi]
      exact ⟨ht.changes, hmoves.book_of_ne hi ▸ ht.last⟩

theorem Told.run {told : List Quote} (hs : s.Sound) (hc : s.Current) (ht : Told s i told)
    (rules : Rules) (calls : List Call) :
    Told (s.run rules calls).1 i ((s.run rules calls).2.foldl (note i) told) := by
  induction calls generalizing s told with
  | nil => exact ht
  | cons c rest ih => exact ih (hs.call rules c) (hc.call hs c) (ht.call hs hc rules c)

theorem told_published (rules : Rules) (i : Instrument) (calls : List Call) :
    Told (empty.run rules calls).1 i (published i (empty.run rules calls).2) :=
  (told_empty i).run sound_empty current_empty rules calls

end Store

/-- An event that goes through publishes the inside of its instrument when that has changed, and
nothing otherwise. Every open book remembers its inside. The insides published between resets
differ, each from the one before, and the last one is that of the book as long as the book is
not corrupted. -/
theorem run_publishes_exactly {c : EngineConfig} {d : Dispatcher}
    (hd : Dispatcher.make c = .ok d) (calls : List Call) :
    let before := (d.run calls).1
    let trace := (d.run calls).2
    (∀ e latency i, e.instrument? = some i →
      let after := (before.process e latency).1
      let outcome := (before.process e latency).2.outcome
      (∀ u, outcome = .ok (some u) →
        u.instrument = i ∧ u.header = e.header ∧ after.store.inside? i = some u.inside ∧
          u.inside ≠ (before.store.inside? i).getD .empty) ∧
      (outcome = .ok none →
        (after.store.inside? i).getD .empty = (before.store.inside? i).getD .empty)) ∧
    (∀ i b, before.store.book? i = some b → b.isCorrupted = false → b.lastInside = b.inside) ∧
    (∀ i part, part <+: trace → (Quote.empty :: Store.published i part).IsChain (· ≠ ·)) ∧
    ∀ i, (before.store.book i).isCorrupted = false →
      (Store.published i trace).getLastD .empty = (before.store.inside? i).getD .empty := by
  obtain ⟨hstore, -, htrace⟩ := Dispatcher.run_of_make hd calls
  have hs : (d.run calls).1.store.Sound := hstore ▸ Store.sound_empty.run c.rules calls
  have hc : (d.run calls).1.store.Current :=
    hstore ▸ Store.current_empty.run Store.sound_empty calls
  refine ⟨?_, ?_, ?_, ?_⟩
  · intro e latency i hi
    have htells := (Store.apply_moves (d.run calls).1.rules hs.orders e).tells hc hi
    have hprocess : ((d.run calls).1.process e latency).1.store =
        ((d.run calls).1.store.apply (d.run calls).1.rules e).1 := rfl
    have houtcome : ((d.run calls).1.process e latency).2.outcome =
        ((d.run calls).1.store.apply (d.run calls).1.rules e).2 := rfl
    dsimp only
    rw [hprocess, houtcome, Store.inside?_getD, Store.inside?_getD]
    refine ⟨fun u hu => ?_, fun hu => ?_⟩
    · rw [hu] at htells
      cases htells with
      | update _ hinstrument hheader _ hinside hchange =>
        exact ⟨hinstrument, hheader, hinside, hchange⟩
    · rw [hu] at htells
      cases htells with
      | silence _ hsame => exact hsame
  · intro i b hb hopen
    have hbook : (d.run calls).1.store.book i = b := by rw [Store.book, hb, Option.getD_some]
    exact hbook ▸ hc i (hbook.symm ▸ hopen)
  · intro i part hpart
    rw [htrace, List.prefix_iff_eq_take, Store.take_run] at hpart
    rw [hpart]
    exact (Store.told_published c.rules i _).changes
  · intro i hopen
    rw [Store.inside?_getD]
    rw [hstore] at hopen ⊢
    rw [htrace]
    exact (Store.told_published c.rules i calls).last hopen

/-- A bid, a reset, and a lower bid. -/
def bidAfterReset : List Call :=
  [.process ⟨default, .addOrder ⟨1, ⟨1⟩, .buy, ⟨12⟩, ⟨7⟩⟩⟩ 0, .reset ⟨1⟩,
    .process ⟨default, .addOrder ⟨2, ⟨1⟩, .buy, ⟨10⟩, ⟨5⟩⟩⟩ 0]

theorem run_publishes_exactly_bidAfterReset :
    ∃ d, Dispatcher.make .standard = .ok d ∧
      (Store.published ⟨1⟩ (d.run bidAfterReset).2).getLastD .empty =
        ⟨some ⟨⟨10⟩, ⟨5⟩⟩, none⟩ := by
  obtain ⟨d, hd⟩ : ∃ d, Dispatcher.make .standard = .ok d := ⟨_, rfl⟩
  have hstore : (d.run bidAfterReset).1.store =
      (Store.empty.run ⟨.eventPrice, false⟩ bidAfterReset).1 :=
    (Dispatcher.run_of_make hd bidAfterReset).1
  refine ⟨d, hd, ((run_publishes_exactly hd bidAfterReset).2.2.2 ⟨1⟩ ?_).trans ?_⟩
  · rw [hstore]
    cbv
  · rw [hstore]
    cbv

end TopOfBook
