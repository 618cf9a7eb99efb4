import TopOfBook.Proofs.Publication

/-! The inside may be compared after every change, or only after one that touched a best level.
An open book remembers its inside, so a comparison after any other change finds the inside that
is remembered and publishes nothing. Two dispatchers that differ in this choice alone answer
every call alike and stay equal but for the choice. -/

namespace TopOfBook

/-- An inside that is remembered already is not published. -/
theorem Book.publish_of_current {b : Book} (h : b.inside = b.lastInside) : b.publish = (b, none) :=
  if_pos h

namespace Store

variable {rules rules' : Rules} {s : Store}

/-- After a message that went through, publishing is comparing, whatever the message touched. -/
theorem publish_eq_compare {b : Book} {orders : OrderTable} {a : Action} {d : Desk}
    {effect : Effect} (rules : Rules) (h : Desk.Moves ⟨b, orders⟩ a d (.ok effect))
    (hcurrent : b.lastInside = b.inside) : publish rules d.book effect = d.book.publish := by
  have huntouched (he : effect ≠ .changed true) : d.book.publish = (d.book, none) := by
    apply Book.publish_of_current
    rw [h.inside_of_untouched he, h.sameMarks.lastInside, hcurrent]
  cases effect with
  | nothing => exact (huntouched (by simp)).symm
  | changed touched =>
    unfold publish
    dsimp only
    split
    · rfl
    · rename_i hskip
      refine (huntouched fun he => hskip ?_).symm
      rw [Effect.changed.inj he, Bool.true_or]

/-- Rules with the same execution price mode lead to the same. -/
theorem apply_congr (hmode : rules'.executionPriceMode = rules.executionPriceMode) (hs : s.Sound)
    (hc : s.Current) (e : Event) : s.apply rules' e = s.apply rules e := by
  cases hi : e.instrument? with
  | none => rw [apply, apply, hi]
  | some i =>
    cases hclosed : (s.book i).isCorrupted with
    | true =>
      rw [apply, apply, hi]
      dsimp only
      rw [if_pos hclosed, if_pos hclosed]
    | false =>
      have hdesk := Desk.act_moves (d := ⟨s.book i, s.orders⟩) hs.orders
        (e.message.action rules.executionPriceMode)
      rw [apply_of_open rules' hi hclosed, apply_of_open rules hi hclosed, hmode]
      cases hact : (Desk.mk (s.book i) s.orders).act (e.message.action rules.executionPriceMode)
        with
      | mk d r =>
        rw [hact] at hdesk
        cases r with
        | error fault => rfl
        | ok effect =>
          dsimp only
          rw [publish_eq_compare rules' hdesk (hc i hclosed),
            publish_eq_compare rules hdesk (hc i hclosed)]

end Store

namespace Dispatcher

variable {d : Dispatcher} {rules : Rules}

/-- The dispatcher under other rules. -/
def under (d : Dispatcher) (rules : Rules) : Dispatcher := { d with rules }

/-- A call is answered alike under other rules that lead to the same. -/
theorem call_under {c : Call} (h : ∀ e latency, c = .process e latency →
      d.store.apply rules e = d.store.apply d.rules e) :
    (d.under rules).call c = ((d.call c).1.under rules, (d.call c).2) := by
  cases c with
  | reset i => rfl
  | process e latency =>
    have happly := h e latency rfl
    simp only [call, process, under, happly]

/-- So is a run, where what makes the next call alike lasts for the calls behind it. -/
theorem run_under {P : Dispatcher → List Call → Prop}
    (hcall : ∀ d c rest, P d (c :: rest) →
      (d.under rules).call c = ((d.call c).1.under rules, (d.call c).2) ∧ P (d.call c).1 rest)
    {calls : List Call} (hP : P d calls) :
    (d.under rules).run calls = ((d.run calls).1.under rules, (d.run calls).2) := by
  induction calls generalizing d with
  | nil => rfl
  | cons c rest ih =>
    obtain ⟨hsame, hrest⟩ := hcall d c rest hP
    have hentry : (d.under rules).entry c = d.entry c := by
      rw [entry, entry, hsame]
      rfl
    rw [run, run, hsame, hentry, ih hrest]

/-- Under other rules with the same execution price mode a run answers alike and ends alike. -/
theorem run_under_of_mode (hmode : rules.executionPriceMode = d.rules.executionPriceMode)
    (hs : d.store.Sound) (hc : d.store.Current) (calls : List Call) :
    (d.under rules).run calls = ((d.run calls).1.under rules, (d.run calls).2) := by
  refine run_under (P := fun d _ => rules.executionPriceMode = d.rules.executionPriceMode ∧
    d.store.Sound ∧ d.store.Current) ?_ ⟨hmode, hs, hc⟩
  rintro d c rest ⟨hmode, hs, hc⟩
  obtain ⟨hstore, hrules, -⟩ := d.call_eq c
  refine ⟨call_under fun e _ _ => Store.apply_congr hmode hs hc e, ?_, ?_, ?_⟩
  · rw [hrules, hmode]
  · exact hstore ▸ hs.call d.rules c
  · exact hstore ▸ hc.call hs c

/-- The rules are no part of what a dispatcher is built from. -/
theorem make_rules (c : EngineConfig) (mode : ExecutionPriceMode) (b : Bool) :
    make { c with executionPriceMode := mode, alwaysRecompute := b } =
      (make c).map fun d => d.under ⟨mode, b⟩ := by
  unfold make
  cases whenEnabled c.enableInstrumentStatistics
    ((FeedStatistics.make c.instrumentStatistics).map fun prototype =>
      InstrumentStatistics.mk prototype ∅) with
  | error fault => rfl
  | ok instruments =>
    cases FeedStatistics.make c.statistics with
    | error fault => rfl
    | ok statistics =>
      cases whenEnabled c.enableDepthStatistics (DepthStatistics.make c.maxBookDepth) <;> rfl

end Dispatcher

/-- A dispatcher that compares the inside after every change and one that does so only after a
change of a best level are built alike or not at all. They answer every call alike, and leave
the same books, orders, counters and statistics. -/
theorem run_recompute_unobservable (c : EngineConfig) (calls : List Call) :
    match Dispatcher.make { c with alwaysRecompute := false },
      Dispatcher.make { c with alwaysRecompute := true } with
    | .ok lazy, .ok eager =>
      (eager.run calls).2 = (lazy.run calls).2 ∧
      (eager.run calls).1.store = (lazy.run calls).1.store ∧
      (eager.run calls).1.counters = (lazy.run calls).1.counters ∧
      (eager.run calls).1.statistics = (lazy.run calls).1.statistics ∧
      (eager.run calls).1.instrumentStatistics = (lazy.run calls).1.instrumentStatistics ∧
      (eager.run calls).1.depths = (lazy.run calls).1.depths
    | .error fault, .error fault' => fault' = fault
    | _, _ => False := by
  rw [Dispatcher.make_rules c c.executionPriceMode false,
    Dispatcher.make_rules c c.executionPriceMode true]
  cases hd : Dispatcher.make c with
  | error fault => rfl
  | ok d =>
    obtain ⟨hstore, hrules⟩ := Dispatcher.store_of_make hd
    have hs : d.store.Sound := hstore ▸ Store.sound_empty
    have hc : d.store.Current := hstore ▸ Store.current_empty
    have hrun (b : Bool) : (d.under ⟨c.executionPriceMode, b⟩).run calls =
        ((d.run calls).1.under ⟨c.executionPriceMode, b⟩, (d.run calls).2) :=
      Dispatcher.run_under_of_mode (by rw [hrules]; rfl) hs hc calls
    dsimp only [Except.map]
    rw [hrun false, hrun true]
    exact ⟨rfl, rfl, rfl, rfl, rfl, rfl⟩

end TopOfBook
