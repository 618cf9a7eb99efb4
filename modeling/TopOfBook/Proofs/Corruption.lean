import Mathlib.Data.List.DropRight
import Mathlib.Data.List.Permutation
import TopOfBook.Proofs.Records

/-! The life of a corruption mark. The first fault that an event finds in the book of its
instrument becomes the mark of the book. It stays until the instrument is reset, and meanwhile
every event for the instrument is rejected and changes nothing. So between resets there is one
fault at most, the mark tells it, and without resets there are as many faults as corrupted
instruments. -/

namespace TopOfBook

/-- Whether a call resets the instrument. -/
def Call.resets (i : Instrument) : Call → Bool
  | process _ _ => false
  | reset j => j = i

/-- The fault that an event found in the book of its instrument. -/
def Entry.faultIn? (i : Instrument) (a : Entry) : Option BookFault :=
  match a.call, a.answer with
  | .process e _, .outcome (.error refusal) =>
    if e.instrument? = some i then refusal.fault? else none
  | _, _ => none

/-- The entries since the last reset of an instrument, oldest first. -/
def sinceReset (i : Instrument) (trace : List Entry) : List Entry :=
  trace.rtakeWhile fun a => !a.call.resets i

/-- The faults found in the book of an instrument since its last reset, oldest first. -/
def faultsSinceReset (i : Instrument) (trace : List Entry) : List BookFault :=
  (sinceReset i trace).filterMap (Entry.faultIn? i)

theorem faultsSinceReset_concat {i : Instrument} {trace : List Entry} {a : Entry}
    (h : a.call.resets i = false) :
    faultsSinceReset i (trace ++ [a]) = faultsSinceReset i trace ++ (a.faultIn? i).toList := by
  rw [faultsSinceReset, sinceReset, List.rtakeWhile_concat_pos _ _ _ (by rw [h, Bool.not_false]),
    List.filterMap_append, List.filterMap_cons, faultsSinceReset, sinceReset]
  cases a.faultIn? i <;> rfl

theorem faultsSinceReset_concat_reset {i : Instrument} {trace : List Entry} {a : Entry}
    (h : a.call.resets i = true) : faultsSinceReset i (trace ++ [a]) = [] := by
  rw [faultsSinceReset, sinceReset, List.rtakeWhile_concat_neg _ _ _ (by simp [h]),
    List.filterMap_nil]

namespace Store

variable {rules : Rules} {s s' : Store} {e : Event} {outcome : Outcome} {i : Instrument}

/-! ### One event -/

/-- A fault is refused with the place of its event, in a book that was open, and marks it. -/
theorem Moves.of_integrity {sequence offset : UInt64} {fault : BookFault}
    (h : Moves rules s e s' (.error (.integrity i sequence offset fault))) :
    e.instrument? = some i ∧ sequence = e.header.sequence ∧ offset = e.header.offset ∧
      (s.book i).isCorrupted = false ∧ (s'.book i).corruption = some fault := by
  cases h with
  | failed _ d _ hi hopen hdesk =>
    refine ⟨hi, rfl, rfl, hopen, ?_⟩
    rw [book_set, if_pos rfl]
    apply Book.corruption_markCorrupted
    rw [hdesk.sameMarks.corruption]
    exact Book.isCorrupted_eq_false_iff.1 hopen

/-- An event changes no mark except that the fault it finds becomes the first one. -/
theorem Moves.corruption (h : Moves rules s e s' outcome) (i : Instrument) (latency : UInt64)
    (b : Option Book) :
    (s'.book i).corruption.toList = (s.book i).corruption.toList ++
      (Entry.faultIn? i ⟨.process e latency, .outcome outcome, b⟩).toList := by
  by_cases hi : e.instrument? = some i
  · cases outcome with
    | error refusal =>
      cases refusal with
      | corrupted j sequence =>
        cases h
        simp [Entry.faultIn?, Refusal.fault?]
      | integrity j sequence offset fault =>
        obtain ⟨hj, -, -, hopen, hmark⟩ := h.of_integrity
        obtain rfl : j = i := Option.some.inj (hj.symm.trans hi)
        rw [hmark, Book.isCorrupted_eq_false_iff.1 hopen]
        simp [Entry.faultIn?, hi, Refusal.fault?]
    | ok update =>
      cases h with
      | ignored => simp [Entry.faultIn?]
      | done j d effect hj hopen hdesk =>
        obtain rfl : j = i := Option.some.inj (hj.symm.trans hi)
        rw [book_set, if_pos rfl, corruption_publish, hdesk.sameMarks.corruption]
        simp [Entry.faultIn?]
  · rw [h.book_of_ne hi]
    cases outcome <;> simp [Entry.faultIn?, hi]

/-- An event for a corrupted instrument is rejected and changes nothing. -/
theorem apply_of_corrupted (rules : Rules) (hi : e.instrument? = some i)
    (hclosed : (s.book i).isCorrupted = true) :
    s.apply rules e = (s, .error (.corrupted i e.header.sequence)) := by
  rw [apply, hi]
  exact if_pos hclosed

/-! ### Runs -/

/-- The mark of a book is the one fault found in it since the last reset. -/
theorem faultsSinceReset_run (rules : Rules) (i : Instrument) (calls : List Call) :
    faultsSinceReset i (empty.run rules calls).2 =
      ((empty.run rules calls).1.book i).corruption.toList := by
  induction calls using List.reverseRecOn with
  | nil => rw [run, show empty.book i = .empty i by simp [book]]; rfl
  | append_singleton calls c ih =>
    have hs := sound_empty.run rules calls
    rw [run_append]
    simp only [run]
    cases c with
    | process e latency =>
      rw [faultsSinceReset_concat rfl, ih]
      exact ((apply_moves rules hs.orders e).corruption i latency _).symm
    | reset j =>
      by_cases hj : j = i
      · rw [faultsSinceReset_concat_reset (a := entry rules _ (.reset j)) (decide_eq_true hj)]
        simp only [call]
        rw [hs.book_reset, if_pos hj.symm]
        rfl
      · rw [faultsSinceReset_concat (a := entry rules _ (.reset j)) (decide_eq_false hj), ih]
        simp only [call]
        rw [hs.book_reset, if_neg (Ne.symm hj)]
        exact List.append_nil _

/-- A mark stays until the instrument is reset. -/
theorem corruption_run {fault : BookFault} (hs : s.Sound) (rules : Rules) {calls : List Call}
    (hreset : ∀ c ∈ calls, c.resets i = false) (hmark : (s.book i).corruption = some fault) :
    ((s.run rules calls).1.book i).corruption = some fault := by
  induction calls generalizing s with
  | nil => exact hmark
  | cons c rest ih =>
    refine ih (hs.call rules c) (fun c' hc' => hreset c' (List.mem_cons_of_mem _ hc')) ?_
    cases c with
    | process e latency =>
      have hclosed : (s.book i).isCorrupted = true := by rw [Book.isCorrupted, hmark]; rfl
      by_cases hi : e.instrument? = some i
      · simp only [call, apply_of_corrupted rules hi hclosed]
        exact hmark
      · simp only [call, (apply_moves rules hs.orders e).book_of_ne hi]
        exact hmark
    | reset j =>
      have hj : j ≠ i := of_decide_eq_false (hreset _ List.mem_cons_self)
      simp only [call]
      rw [hs.book_reset, if_neg hj.symm]
      exact hmark

/-! ### Counting corrupted instruments -/

/-- An event that finds a fault adds its instrument to the corrupted ones, and no other event
changes which they are. -/
theorem Moves.corrupted (h : Moves rules s e s' outcome) (c : Counters) :
    (c.recordOutcome outcome).integrityErrors + s.corrupted.length =
      c.integrityErrors + s'.corrupted.length := by
  have hsame (hmarks : ∀ j, (s'.book j).isCorrupted = (s.book j).isCorrupted) :
      s'.corrupted.length = s.corrupted.length := by
    refine ((List.perm_ext_iff_of_nodup s'.corrupted_nodup s.corrupted_nodup).2 ?_).length_eq
    intro j
    rw [mem_corrupted, mem_corrupted, hmarks]
  cases h with
  | ignored => rfl
  | rejected => rfl
  | done i d effect hi hopen hdesk =>
    rw [hsame]
    · cases (publish rules d.book effect).2 <;> rfl
    · intro j
      rw [book_set]
      split
      · rw [Book.isCorrupted, corruption_publish, hdesk.sameMarks.corruption, ‹j = i›]
        rfl
      · rfl
  | failed i d fault hi hopen hdesk =>
    have hnew : i ∉ s.corrupted := by
      rw [mem_corrupted, hopen]
      exact Bool.false_ne_true
    have hmore : (s.set i (d.book.markCorrupted fault) d.orders).corrupted.Perm
        (i :: s.corrupted) := by
      refine (List.perm_ext_iff_of_nodup (corrupted_nodup _)
        (List.nodup_cons.2 ⟨hnew, s.corrupted_nodup⟩)).2 fun j => ?_
      rw [mem_corrupted, book_set, List.mem_cons, mem_corrupted]
      by_cases hj : j = i
      · simp [hj]
      · simp [hj]
    rw [hmore.length_eq, List.length_cons]
    exact Nat.add_right_comm _ _ _

end Store

/-- Without resets an instrument is corrupted for each fault that was counted. -/
theorem Dispatcher.run_integrityErrors {d : Dispatcher} {calls : List Call} (hs : d.store.Sound)
    (hreset : ∀ c ∈ calls, ∀ i, c.resets i = false) :
    (d.run calls).1.counters.integrityErrors + d.store.corrupted.length =
      d.counters.integrityErrors + (d.run calls).1.store.corrupted.length := by
  induction calls generalizing d with
  | nil => rfl
  | cons c rest ih =>
    obtain ⟨hstore, -, -⟩ := d.call_eq c
    have hs' : (d.call c).1.store.Sound := hstore ▸ hs.call d.rules c
    have hrest := ih hs' fun c' hc' => hreset c' (List.mem_cons_of_mem _ hc')
    cases c with
    | reset i =>
      have hi := hreset _ List.mem_cons_self i
      simp [Call.resets] at hi
    | process e latency =>
      have hstep := (process_moves hs e latency).corrupted (d.counters.recordEvent e.kind)
      have hcounters : (d.process e latency).1.counters =
        (d.counters.recordEvent e.kind).recordOutcome (d.process e latency).2.outcome := rfl
      have hevent : (d.counters.recordEvent e.kind).integrityErrors =
        d.counters.integrityErrors := rfl
      simp only [call, hcounters] at hrest
      simp only [run, call]
      omega

/-- A fault is told with the instrument, the number and the place of the event that found it.
From then on, until the instrument is reset, it is the mark of the book, and every event for the
instrument is rejected and changes no book and no order. The mark of a book is at any time the
only fault found in it since the last reset, if there is one. The corrupted instruments are those
with such a fault, in ascending order, and without resets as many as faults were counted. -/
theorem run_corruption {c : EngineConfig} {d : Dispatcher} (hd : Dispatcher.make c = .ok d)
    (calls : List Call) :
    let before := (d.run calls).1
    let trace := (d.run calls).2
    (∀ e latency i sequence offset fault,
      (before.process e latency).2.outcome = .error (.integrity i sequence offset fault) →
      e.instrument? = some i ∧ sequence = e.header.sequence ∧ offset = e.header.offset ∧
      ∀ later : List Call, (∀ c ∈ later, c.resets i = false) →
        let marked := ((before.process e latency).1.run later).1
        (marked.store.book i).corruption = some fault ∧
        ∀ e' latency', e'.instrument? = some i →
          (marked.process e' latency').2.outcome = .error (.corrupted i e'.header.sequence) ∧
          (marked.process e' latency').1.store = marked.store) ∧
    (∀ i, faultsSinceReset i trace = (before.store.book i).corruption.toList) ∧
    (∀ i, i ∈ before.store.corrupted ↔ faultsSinceReset i trace ≠ []) ∧
    before.store.corrupted.Pairwise (fun i j => i.id < j.id) ∧
    ((∀ c ∈ calls, ∀ i, c.resets i = false) →
      before.counters.integrityErrors = before.store.corrupted.length) := by
  obtain ⟨hstore, -, htrace⟩ := Dispatcher.run_of_make hd calls
  have hs : (d.run calls).1.store.Sound := hstore ▸ Store.sound_empty.run c.rules calls
  have hfaults : ∀ i, faultsSinceReset i (d.run calls).2 =
      ((d.run calls).1.store.book i).corruption.toList := by
    intro i
    rw [htrace, hstore]
    exact Store.faultsSinceReset_run c.rules i calls
  refine ⟨?_, hfaults, fun i => ?_, ?_, fun hreset => ?_⟩
  · intro e latency i sequence offset fault ho
    have hmoves := Dispatcher.process_moves hs e latency
    have hs' := hmoves.sound hs
    rw [ho] at hmoves
    obtain ⟨hi, hsequence, hoffset, -, hmark⟩ := hmoves.of_integrity
    refine ⟨hi, hsequence, hoffset, fun later hlater => ?_⟩
    have hkept : ((((d.run calls).1.process e latency).1.run later).1.store.book i).corruption =
        some fault := by
      rw [(Dispatcher.run_eq _ later).1]
      exact Store.corruption_run hs' _ hlater hmark
    refine ⟨hkept, fun e' latency' hi' => ?_⟩
    have hclosed : ((((d.run calls).1.process e latency).1.run later).1.store.book i).isCorrupted =
        true := by
      rw [Book.isCorrupted, hkept]
      rfl
    have happly := Store.apply_of_corrupted
      (((d.run calls).1.process e latency).1.run later).1.rules hi' hclosed
    exact ⟨congrArg Prod.snd happly, congrArg Prod.fst happly⟩
  · rw [Store.mem_corrupted, hfaults, Book.isCorrupted]
    cases ((d.run calls).1.store.book i).corruption <;> simp
  · exact (Store.corrupted_pairwise _).imp fun h => (Std.compare_eq_lt (a := Instrument.id _)).1 h
  · obtain ⟨instruments, statistics, depths, -, -, -, rfl⟩ := Dispatcher.make_eq_ok hd
    have hcount := Dispatcher.run_integrityErrors
      (d := ⟨c.rules, .empty, statistics, instruments, depths, .zero⟩) Store.sound_empty hreset
    exact hcount.trans (Nat.zero_add _)

/-- An unknown order corrupts an instrument, and the order that comes next is rejected. -/
def unknownCancel : List Call :=
  [.process ⟨default, .orderCancel ⟨1⟩ 99 ⟨5⟩⟩ 0,
    .process ⟨default, .addOrder ⟨1, ⟨1⟩, .buy, ⟨10⟩, ⟨5⟩⟩⟩ 0]

/-- Names an unknown order of another instrument. -/
def unknownDelete : Event := ⟨{ (default : Header) with sequence := 3, offset := 40 },
  .orderDelete ⟨2⟩ 7⟩

theorem run_corruption_twoInstruments :
    ∃ d, Dispatcher.make .standard = .ok d ∧
      faultsSinceReset ⟨1⟩ (d.run unknownCancel).2 = [.unknownOrder 99] ∧
      (d.run unknownCancel).1.counters.integrityErrors =
        (d.run unknownCancel).1.store.corrupted.length ∧
      ((d.run unknownCancel).1.process unknownDelete 0).2.outcome =
        .error (.integrity ⟨2⟩ 3 40 (.unknownOrder 7)) ∧
      ((((d.run unknownCancel).1.process unknownDelete 0).1.run [.reset ⟨1⟩]).1.store.book
        ⟨2⟩).corruption = some (.unknownOrder 7) := by
  obtain ⟨d, hd⟩ : ∃ d, Dispatcher.make .standard = .ok d := ⟨_, rfl⟩
  have hstore : (d.run unknownCancel).1.store =
      (Store.empty.run ⟨.eventPrice, false⟩ unknownCancel).1 :=
    (Dispatcher.run_of_make hd unknownCancel).1
  have hprocess : ((d.run unknownCancel).1.process unknownDelete 0).2.outcome =
      ((Store.empty.run ⟨.eventPrice, false⟩ unknownCancel).1.apply ⟨.eventPrice, false⟩
        unknownDelete).2 :=
    (Dispatcher.process_of_make hd unknownCancel unknownDelete 0).2
  have hfound : ((d.run unknownCancel).1.process unknownDelete 0).2.outcome =
      .error (.integrity ⟨2⟩ 3 40 (.unknownOrder 7)) := by
    rw [hprocess]
    cbv
  obtain ⟨hlife, hfaults, -, -, hcount⟩ := run_corruption hd unknownCancel
  refine ⟨d, hd, (hfaults ⟨1⟩).trans ?_, hcount ?_, hfound, ?_⟩
  · rw [hstore]
    cbv
  · intro c hc i
    cases hc with
    | head => rfl
    | tail _ hc =>
      obtain rfl := List.mem_singleton.1 hc
      rfl
  · refine ((hlife unknownDelete 0 ⟨2⟩ 3 40 _ hfound).2.2.2 [.reset ⟨1⟩] ?_).1
    intro c hc
    obtain rfl := List.mem_singleton.1 hc
    rfl

end TopOfBook
