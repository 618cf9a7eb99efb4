import Mathlib.Algebra.Order.BigOperators.Group.Finset
import Mathlib.Logic.Function.Basic
import Mathlib.Logic.Relation
import TopOfBook.Proofs.Parts

/-! Workers at work. Events are submitted one by one into the bounded queue of their worker; each
worker takes an event off its queue, processes it and sends what it hands out to the common
outputs. The workers move in any order. In every order each of them gets its own events as they
were submitted, nothing waits for ever, and the outputs of a worker are sent in its own order. -/

namespace TopOfBook

/-! ### One worker -/

/-- What is handed out for an event is about its instrument. -/
theorem Store.instrument_of_output {rules : Rules} {s : Store} {e : Event} {o : WorkerOutput}
    (h : WorkerOutput.ofOutcome? (s.apply rules e).2 = some o) :
    e.instrument? = some o.instrument := by
  unfold apply at h
  cases hi : e.instrument? with
  | none =>
    rw [hi] at h
    cases h
  | some i =>
    simp only [hi] at h
    split at h
    · cases h
      rfl
    · unfold applyOpen at h
      split at h
      · cases h
        rfl
      · rename_i desk effect _
        revert h
        dsimp only
        cases (publish rules desk.book effect).2 with
        | none => intro h; cases h
        | some q =>
          intro h
          cases h
          rfl

namespace Worker

/-- What an event makes a worker hand out. -/
def output? (w : Worker) (e : Event) (latency : UInt64) : Option WorkerOutput :=
  WorkerOutput.ofOutcome? (w.dispatcher.process e latency).2.outcome

def takeAll (w : Worker) (latency : UInt64) (es : List Event) : Worker :=
  es.foldl (fun w e => w.take e latency) w

theorem takeAll_concat (w : Worker) (latency : UInt64) (es : List Event) (e : Event) :
    w.takeAll latency (es ++ [e]) = (w.takeAll latency es).take e latency := by
  rw [takeAll, List.foldl_append]
  rfl

theorem outputs_take (w : Worker) (e : Event) (latency : UInt64) :
    (w.take e latency).outputs.toList = w.outputs.toList ++ (w.output? e latency).toList := by
  unfold take output?
  dsimp only
  cases WorkerOutput.ofOutcome? (w.dispatcher.process e latency).2.outcome with
  | none => exact (List.append_nil _).symm
  | some o => exact Array.toList_push

theorem instrument_of_output {w : Worker} {e : Event} {latency : UInt64} {o : WorkerOutput}
    (h : w.output? e latency = some o) : e.instrument? = some o.instrument :=
  Store.instrument_of_output h

end Worker

/-! ### All workers -/

/-- An engine while it runs. -/
structure Engine where
  /-- Events still to be submitted. -/
  pending : List Event
  /-- The queue of each worker. -/
  queues : Nat → List Event
  /-- The event that each worker has taken off its queue and not processed yet. -/
  held : Nat → Option Event
  workers : Workers
  /-- All that was sent to the common outputs, in order. -/
  sent : List WorkerOutput

namespace Engine

def start (workers : Workers) (es : List Event) : Engine :=
  ⟨es, fun _ => [], fun _ => none, workers, []⟩

/-- What a worker hands out for an event. -/
def handedOut (s : Engine) (k : Nat) (e : Event) (latency : UInt64) : List WorkerOutput :=
  (s.workers.all[k]?.bind fun w => w.output? e latency).toList

/-- Submitting waits for room in the queue. -/
inductive Step (capacity : Nat) (latency : UInt64) : Engine → Engine → Prop
  | submit (s : Engine) (e : Event) (rest : List Event) (hnext : s.pending = e :: rest)
      (hroom : (s.queues (Workers.route s.workers.size e)).length < capacity) :
      Step capacity latency s
        { s with
          pending := rest
          queues := Function.update s.queues (Workers.route s.workers.size e)
            (s.queues (Workers.route s.workers.size e) ++ [e]) }
  | receive (s : Engine) (k : Nat) (e : Event) (rest : List Event)
      (hqueue : s.queues k = e :: rest) (hfree : s.held k = none) :
      Step capacity latency s
        { s with
          queues := Function.update s.queues k rest
          held := Function.update s.held k (some e) }
  | work (s : Engine) (k : Nat) (e : Event) (hheld : s.held k = some e) :
      Step capacity latency s
        { s with
          held := Function.update s.held k none
          workers := s.workers.takeAt k e latency
          sent := s.sent ++ s.handedOut k e latency }

/-- Any number of steps, of whichever workers. -/
abbrev Steps (capacity : Nat) (latency : UInt64) : Engine → Engine → Prop :=
  Relation.ReflTransGen (Step capacity latency)

/-- Everything was submitted and processed. -/
structure Finished (s : Engine) : Prop where
  pending : s.pending = []
  queues : ∀ k, s.queues k = []
  held : ∀ k, s.held k = none

variable {capacity : Nat} {latency : UInt64} {s s' : Engine} {workers : Workers}
  {es : List Event}

/-- The events of each worker are where they should be: those it processed, the one it holds,
those in its queue and those still to be submitted make up the ones meant for it, in order. And
what was sent about its instruments is what it handed out. -/
structure InOrder (workers : Workers) (latency : UInt64) (es : List Event) (s : Engine) : Prop where
  size : s.workers.size = workers.size
  events : ∀ k, ∃ done, s.workers.all[k]? = (workers.all[k]?).map (·.takeAll latency done) ∧
    done ++ (s.held k).toList ++ s.queues k ++
      s.pending.filter (fun e => Workers.route workers.size e = k) =
        es.filter fun e => Workers.route workers.size e = k
  sent : ∀ k, s.sent.filter (fun o => o.instrument.id.toNat % workers.size = k) =
    (s.workers.all[k]?).elim [] fun w => w.outputs.toList

theorem getElem?_takeAt (w : Workers) (k j : Nat) (e : Event) (latency : UInt64) :
    (w.takeAt k e latency).all[j]? =
      if j = k then (w.all[j]?).map (·.take e latency) else w.all[j]? := by
  unfold Workers.takeAt
  rw [Array.getElem?_modify]
  by_cases h : j = k
  · subst h
    simp
  · simp [h, Ne.symm h]

theorem inOrder_start (hidle : ∀ w ∈ workers.all, w.outputs = #[]) :
    InOrder workers latency es (start workers es) where
  size := rfl
  events k := ⟨[], by simp [start, Worker.takeAll], by simp [start]⟩
  sent k := by
    simp only [start, List.filter_nil]
    cases hk : workers.all[k]? with
    | none => rfl
    | some w => simp [hidle w (Array.mem_of_getElem? hk)]

/-- A worker holds events of its own. -/
theorem InOrder.route_of_held (hs : InOrder workers latency es s) {k : Nat} {e : Event}
    (hheld : s.held k = some e) : Workers.route workers.size e = k := by
  obtain ⟨done, -, hevents⟩ := hs.events k
  have he : e ∈ es.filter fun e => Workers.route workers.size e = k := by
    rw [← hevents, hheld]
    simp
  exact of_decide_eq_true (List.mem_filter.1 he).2

theorem shard_of_handedOut {shards : Nat} (hshards : 0 < shards) {k : Nat} {e : Event}
    {o : WorkerOutput} (ho : o ∈ s.handedOut k e latency) :
    o.instrument.id.toNat % shards = Workers.route shards e := by
  obtain ⟨w, -, hw⟩ := Option.bind_eq_some_iff.1 (Option.mem_toList.1 ho)
  have hi := Worker.instrument_of_output hw
  exact (Call.shard_eq (c := .process e latency) hshards hi).symm

theorem Step.inOrder (h : Step capacity latency s s') (hsize : 0 < workers.size)
    (hs : InOrder workers latency es s) : InOrder workers latency es s' := by
  cases h with
  | submit e rest hnext hroom =>
    refine ⟨hs.size, fun k => ?_, hs.sent⟩
    obtain ⟨done, hworker, hevents⟩ := hs.events k
    refine ⟨done, hworker, ?_⟩
    rw [← hevents, hnext, hs.size]
    by_cases hk : Workers.route workers.size e = k
    · subst hk
      simp
    · simp [hk, Function.update_of_ne (Ne.symm hk)]
  | receive k e rest hqueue hfree =>
    refine ⟨hs.size, fun j => ?_, hs.sent⟩
    obtain ⟨done, hworker, hevents⟩ := hs.events j
    refine ⟨done, hworker, ?_⟩
    rw [← hevents]
    by_cases hj : j = k
    · subst hj
      simp [hqueue, hfree]
    · simp [Function.update_of_ne hj]
  | work k e hheld =>
    refine ⟨?_, fun j => ?_, fun j => ?_⟩
    · rw [← hs.size]
      exact Array.size_modify
    · obtain ⟨done, hworker, hevents⟩ := hs.events j
      dsimp only
      rw [getElem?_takeAt, hworker]
      by_cases hj : j = k
      · subst hj
        refine ⟨done ++ [e], ?_, ?_⟩
        · rw [if_pos rfl, Option.map_map]
          congr 1
          funext w
          exact (Worker.takeAll_concat w latency done e).symm
        · rw [← hevents]
          simp [hheld]
      · exact ⟨done, if_neg hj, by rw [← hevents, Function.update_of_ne hj]⟩
    · have hown : ∀ o ∈ s.handedOut k e latency, o.instrument.id.toNat % workers.size = k :=
        fun o ho => (shard_of_handedOut hsize ho).trans (hs.route_of_held hheld)
      dsimp only
      rw [List.filter_append, hs.sent j, getElem?_takeAt]
      by_cases hj : j = k
      · subst hj
        rw [List.filter_eq_self.2 fun o ho => decide_eq_true (hown o ho), if_pos rfl, handedOut]
        cases s.workers.all[j]? with
        | none => rfl
        | some w => exact (Worker.outputs_take w e latency).symm
      · have hnone : ∀ o ∈ s.handedOut k e latency,
            ¬ decide (o.instrument.id.toNat % workers.size = j) := by
          intro o ho
          rw [hown o ho, decide_eq_true_eq]
          exact Ne.symm hj
        rw [List.filter_eq_nil_iff.2 hnone, if_neg hj, List.append_nil]

theorem Steps.inOrder (h : Steps capacity latency s s') (hsize : 0 < workers.size)
    (hs : InOrder workers latency es s) : InOrder workers latency es s' := by
  induction h with
  | refl => exact hs
  | tail _ hstep ih => exact hstep.inOrder hsize ih

/-! ### Nothing waits for ever -/

/-- While there is something left to do, some worker or the submitting side can go on. -/
theorem exists_step (hcapacity : 0 < capacity) (latency : UInt64) (h : ¬ s.Finished) :
    ∃ s', Step capacity latency s s' := by
  by_cases hheld : ∃ k e, s.held k = some e
  · obtain ⟨k, e, hk⟩ := hheld
    exact ⟨_, .work s k e hk⟩
  have hfree : ∀ k, s.held k = none := by
    intro k
    cases hk : s.held k with
    | none => rfl
    | some e => exact absurd ⟨k, e, hk⟩ hheld
  by_cases hqueue : ∃ k e rest, s.queues k = e :: rest
  · obtain ⟨k, e, rest, hk⟩ := hqueue
    exact ⟨_, .receive s k e rest hk (hfree k)⟩
  have hempty : ∀ k, s.queues k = [] := by
    intro k
    cases hk : s.queues k with
    | nil => rfl
    | cons e rest => exact absurd ⟨k, e, rest, hk⟩ hqueue
  cases hnext : s.pending with
  | nil => exact absurd ⟨hnext, hempty, hfree⟩ h
  | cons e rest =>
    refine ⟨_, .submit s e rest hnext ?_⟩
    rw [hempty]
    exact hcapacity

/-- The steps that the workers still have to take for the events they were given. -/
def left (s : Engine) (shards : Nat) : Nat :=
  ∑ k ∈ Finset.range shards, (2 * (s.queues k).length + (s.held k).toList.length)

theorem InOrder.lt_size (hs : InOrder workers latency es s) (hsize : 0 < workers.size) {k : Nat}
    (hk : s.queues k ≠ [] ∨ s.held k ≠ none) : k < workers.size := by
  by_contra hge
  obtain ⟨done, -, hevents⟩ := hs.events k
  have hnone : (es.filter fun e => Workers.route workers.size e = k) = [] := by
    rw [List.filter_eq_nil_iff]
    intro e _ hroute
    have hlt : Workers.route workers.size e < workers.size :=
      Call.shard_lt hsize (.process e latency)
    have heq := of_decide_eq_true hroute
    omega
  rw [hnone] at hevents
  simp only [List.append_eq_nil_iff, Option.toList_eq_nil_iff] at hevents
  rcases hk with hqueue | hheld
  · exact hqueue hevents.1.2
  · exact hheld hevents.1.1.2

/-- Each step submits an event or leaves less to do. -/
theorem Step.left_lt (h : Step capacity latency s s') (hsize : 0 < workers.size)
    (hs : InOrder workers latency es s) :
    s'.pending.length < s.pending.length ∨
      s'.pending = s.pending ∧ s'.left workers.size < s.left workers.size := by
  cases h with
  | submit e rest hnext hroom =>
    left
    rw [hnext]
    exact Nat.lt_succ_self _
  | receive k e rest hqueue hfree =>
    right
    refine ⟨rfl, Finset.sum_lt_sum (fun j _ => ?_) ⟨k, ?_, ?_⟩⟩
    · by_cases hj : j = k
      · subst hj
        simp only [Function.update_self, hqueue, hfree, List.length_cons, Option.toList_some,
          Option.toList_none, List.length_nil]
        omega
      · simp only [Function.update_of_ne hj, le_refl]
    · exact Finset.mem_range.2 (hs.lt_size hsize (.inl (by simp [hqueue])))
    · simp only [Function.update_self, hqueue, hfree, List.length_cons, Option.toList_some,
        Option.toList_none, List.length_nil]
      omega
  | work k e hheld =>
    right
    refine ⟨rfl, Finset.sum_lt_sum (fun j _ => ?_) ⟨k, ?_, ?_⟩⟩
    · by_cases hj : j = k
      · subst hj
        simp
      · simp [Function.update_of_ne hj]
    · exact Finset.mem_range.2 (hs.lt_size hsize (.inr (by simp [hheld])))
    · simp [hheld]

/-- However far the workers have come, they can all finish. -/
theorem exists_finished {s : Engine} (hcapacity : 0 < capacity) (hsize : 0 < workers.size)
    (hs : InOrder workers latency es s) :
    ∃ s', Steps capacity latency s s' ∧ s'.Finished := by
  by_cases hdone : s.Finished
  · exact ⟨s, .refl, hdone⟩
  obtain ⟨s₁, hstep⟩ := exists_step hcapacity latency hdone
  have hleft := hstep.left_lt hsize hs
  obtain ⟨s₂, hsteps, hfinished⟩ := exists_finished hcapacity hsize (hstep.inOrder hsize hs)
  exact ⟨s₂, .head hstep hsteps, hfinished⟩
termination_by (s.pending.length, s.left workers.size)
decreasing_by
  rcases hleft with hless | ⟨hsame, hless⟩
  · exact Prod.Lex.left _ _ hless
  · rw [hsame]
    exact Prod.Lex.right _ hless

end Engine
end TopOfBook
