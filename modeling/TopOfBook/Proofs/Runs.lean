import TopOfBook.Engine.Dispatcher
import TopOfBook.Proofs.Results
import TopOfBook.Proofs.Stores

/-! Runs of a dispatcher: any events and any resets, in any order. What a run answers and the
store it ends in depend on the store and the rules alone, so the statements below are about
runs of a store, and `Dispatcher.run_eq` carries them over. -/

namespace TopOfBook

inductive Call
  | process (e : Event) (latency : UInt64)
  | reset (i : Instrument)

/-- What a call returns: the outcome of an event, or the number of orders dropped. -/
inductive Answer
  | outcome (o : Outcome)
  | dropped (orders : Nat)

namespace Call

/-- The instrument whose book a call is for. -/
def instrument? : Call → Option Instrument
  | process e _ => e.instrument?
  | reset i => some i

/-- The numbers of orders that a call names. -/
def ids : Call → List OrderId
  | process e _ => e.ids
  | reset _ => []

/-- A call for no instrument names no orders. -/
theorem ids_eq_nil {c : Call} (h : c.instrument? = none) : c.ids = [] := by
  cases c with
  | process e latency => exact e.message.ids_eq_nil h
  | reset i => cases h

end Call

/-- A call that was made, its answer, and the book of its instrument afterwards. -/
structure Entry where
  call : Call
  answer : Answer
  book : Option Book

/-! ### Stores -/

namespace Store

variable {rules : Rules} {s : Store}

def call (rules : Rules) (s : Store) : Call → Store × Answer
  | .process e _ => ((s.apply rules e).1, .outcome (s.apply rules e).2)
  | .reset i => ((s.reset i).1, .dropped (s.reset i).2)

def entry (rules : Rules) (s : Store) (c : Call) : Entry :=
  ⟨c, (s.call rules c).2, c.instrument?.bind (s.call rules c).1.book?⟩

/-- Makes the calls one after the other, and keeps an entry for each. -/
def run (rules : Rules) (s : Store) : List Call → Store × List Entry
  | [] => (s, [])
  | c :: rest =>
    (((s.call rules c).1.run rules rest).1,
      s.entry rules c :: ((s.call rules c).1.run rules rest).2)

/-- The first entries of a run are those of its first calls. -/
theorem take_run (rules : Rules) (s : Store) (calls : List Call) (n : Nat) :
    (s.run rules calls).2.take n = (s.run rules (calls.take n)).2 := by
  induction calls generalizing s n with
  | nil => simp [run]
  | cons c rest ih =>
    cases n with
    | zero => rfl
    | succ n => rw [List.take_succ_cons, run, run, List.take_succ_cons, ih]

theorem run_append (rules : Rules) (s : Store) (calls rest : List Call) :
    s.run rules (calls ++ rest) =
      (((s.run rules calls).1.run rules rest).1,
        (s.run rules calls).2 ++ ((s.run rules calls).1.run rules rest).2) := by
  induction calls generalizing s with
  | nil => rfl
  | cons c calls ih => rw [List.cons_append, run, ih, run, List.cons_append]

theorem Sound.apply (hs : s.Sound) (rules : Rules) (e : Event) : (s.apply rules e).1.Sound :=
  (apply_moves rules hs.orders e).sound hs

theorem Sound.call (hs : s.Sound) (rules : Rules) (c : Call) : (s.call rules c).1.Sound := by
  cases c with
  | process e latency => exact hs.apply rules e
  | reset i => exact hs.reset i

/-- What holds of a sound store and is kept by every call holds at the end of a run. -/
theorem run_invariant {P : Store → Prop}
    (hcall : ∀ s c, s.Sound → P s → P (s.call rules c).1) (hs : s.Sound) (hP : P s)
    (calls : List Call) : P (s.run rules calls).1 := by
  induction calls generalizing s with
  | nil => exact hP
  | cons c rest ih => exact ih (hs.call rules c) (hcall s c hs hP)

theorem Sound.run (hs : s.Sound) (rules : Rules) (calls : List Call) :
    (s.run rules calls).1.Sound :=
  run_invariant (fun _ c hs _ => hs.call rules c) hs hs calls

end Store

/-! ### Dispatchers -/

namespace Dispatcher

def call (d : Dispatcher) : Call → Dispatcher × Answer
  | .process e latency => ((d.process e latency).1, .outcome (d.process e latency).2.outcome)
  | .reset i => ((d.resetInstrument i).1, .dropped (d.resetInstrument i).2)

def entry (d : Dispatcher) (c : Call) : Entry :=
  ⟨c, (d.call c).2, c.instrument?.bind (d.call c).1.store.book?⟩

/-- Makes the calls one after the other, and keeps an entry for each. -/
def run (d : Dispatcher) : List Call → Dispatcher × List Entry
  | [] => (d, [])
  | c :: rest => (((d.call c).1.run rest).1, d.entry c :: ((d.call c).1.run rest).2)

theorem run_append (d : Dispatcher) (calls rest : List Call) :
    d.run (calls ++ rest) =
      (((d.run calls).1.run rest).1, (d.run calls).2 ++ ((d.run calls).1.run rest).2) := by
  induction calls generalizing d with
  | nil => rfl
  | cons c calls ih => rw [List.cons_append, run, ih, run, List.cons_append]

theorem call_eq (d : Dispatcher) (c : Call) :
    (d.call c).1.store = (d.store.call d.rules c).1 ∧ (d.call c).1.rules = d.rules ∧
      d.entry c = d.store.entry d.rules c := by
  cases c <;> exact ⟨rfl, rfl, rfl⟩

/-- A run of a dispatcher is a run of its store under its rules. -/
theorem run_eq (d : Dispatcher) (calls : List Call) :
    (d.run calls).1.store = (d.store.run d.rules calls).1 ∧ (d.run calls).1.rules = d.rules ∧
      (d.run calls).2 = (d.store.run d.rules calls).2 := by
  induction calls generalizing d with
  | nil => exact ⟨rfl, rfl, rfl⟩
  | cons c rest ih =>
    obtain ⟨hstore, hrules, hentry⟩ := d.call_eq c
    obtain ⟨ih₁, ih₂, ih₃⟩ := ih (d.call c).1
    rw [hstore, hrules] at ih₁ ih₃
    refine ⟨ih₁, ih₂.trans hrules, ?_⟩
    rw [run, Store.run, hentry, ih₃]

theorem whenEnabled_eq_some {α : Type} {enabled : Bool} {build : Except BinningFault α} {x : α}
    (h : whenEnabled enabled build = .ok (some x)) : build = .ok x := by
  unfold whenEnabled at h
  cases enabled with
  | false => cases h
  | true =>
    cases build with
    | error fault => cases h
    | ok y => exact congrArg Except.ok (Option.some.inj (Except.ok.inj h))

/-- A new dispatcher has its three parts as they are built, and nothing else. -/
theorem make_eq_ok {c : EngineConfig} {d : Dispatcher} (h : make c = .ok d) :
    ∃ instruments statistics depths,
      whenEnabled c.enableInstrumentStatistics
        ((FeedStatistics.make c.instrumentStatistics).map fun prototype =>
          InstrumentStatistics.mk prototype ∅) = .ok instruments ∧
      FeedStatistics.make c.statistics = .ok statistics ∧
      whenEnabled c.enableDepthStatistics (DepthStatistics.make c.maxBookDepth) = .ok depths ∧
      d = ⟨c.rules, .empty, statistics, instruments, depths, .zero⟩ := by
  obtain ⟨instruments, hinstruments, h⟩ := exists_of_bind_eq_ok h
  obtain ⟨statistics, hstatistics, h⟩ := exists_of_bind_eq_ok h
  obtain ⟨depths, hdepths, h⟩ := exists_of_bind_eq_ok h
  cases h
  exact ⟨instruments, statistics, depths, hinstruments, hstatistics, hdepths, rfl⟩

/-- Statistics by instrument begin with none, and with a prototype as it is built. -/
theorem instrumentStatistics_of_make {c : EngineConfig} {d : Dispatcher} (h : make c = .ok d)
    {s : InstrumentStatistics} (hs : d.instrumentStatistics = some s) :
    FeedStatistics.make c.instrumentStatistics = .ok s.prototype ∧ s.byInstrument = ∅ := by
  obtain ⟨instruments, _, _, hinstruments, -, -, rfl⟩ := make_eq_ok h
  obtain rfl : instruments = some s := hs
  obtain ⟨prototype, hmake, rfl⟩ := exists_of_map_eq_ok (whenEnabled_eq_some hinstruments)
  exact ⟨hmake, rfl⟩

theorem store_of_make {c : EngineConfig} {d : Dispatcher} (h : make c = .ok d) :
    d.store = .empty ∧ d.rules = c.rules := by
  obtain ⟨_, _, _, -, -, -, rfl⟩ := make_eq_ok h
  exact ⟨rfl, rfl⟩

/-- A run of a new dispatcher is a run of the empty store. -/
theorem run_of_make {c : EngineConfig} {d : Dispatcher} (h : make c = .ok d) (calls : List Call) :
    (d.run calls).1.store = (Store.empty.run c.rules calls).1 ∧
      (d.run calls).1.rules = c.rules ∧ (d.run calls).2 = (Store.empty.run c.rules calls).2 := by
  obtain ⟨hempty, hrules⟩ := store_of_make h
  rw [← hempty, ← hrules]
  exact d.run_eq calls

theorem sound_run_of_make {c : EngineConfig} {d : Dispatcher} (h : make c = .ok d)
    (calls : List Call) : (d.run calls).1.store.Sound :=
  (run_of_make h calls).1 ▸ Store.sound_empty.run c.rules calls

/-- An event does to the store of a dispatcher what it does to a store. -/
theorem process_moves {d : Dispatcher} (hs : d.store.Sound) (e : Event) (latency : UInt64) :
    Store.Moves d.rules d.store e (d.process e latency).1.store (d.process e latency).2.outcome :=
  Store.apply_moves d.rules hs.orders e

/-- An event after a run of a new dispatcher is one after a run of the empty store. -/
theorem process_of_make {c : EngineConfig} {d : Dispatcher} (h : make c = .ok d)
    (calls : List Call) (e : Event) (latency : UInt64) :
    ((d.run calls).1.process e latency).1.store =
        ((Store.empty.run c.rules calls).1.apply c.rules e).1 ∧
      ((d.run calls).1.process e latency).2.outcome =
        ((Store.empty.run c.rules calls).1.apply c.rules e).2 := by
  obtain ⟨hstore, hrules, -⟩ := run_of_make h calls
  rw [← hstore, ← hrules]
  exact ⟨rfl, rfl⟩

end Dispatcher
end TopOfBook
