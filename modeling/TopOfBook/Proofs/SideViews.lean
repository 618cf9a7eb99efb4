import TopOfBook.Proofs.Books
import TopOfBook.Proofs.SideLedger

/-! All views of a side show one list of levels, each level once and in the order of priority: the
best level begins it, the worst one ends it, and what is found at a price stands in it. The views
of a book are those of its sides, and a side goes its own way: it is what the calls for it make of
it, whatever is called on the other side in between. -/

namespace TopOfBook

namespace BookSide

variable {side : Side}

theorem worst?_eq_getLast? (b : BookSide side) : b.worst? = b.levels.getLast? := by
  cases side with
  | buy =>
    simp only [worst?, lowest?, levels, OrderedMap.minEntry?_eq_head?, List.getLast?_reverse,
      List.head?_map]
  | sell =>
    simp only [worst?, highest?, levels, OrderedMap.maxEntry?_eq_getLast?, List.getLast?_map]

theorem length_levels (b : BookSide side) : b.levels.length = b.depth := by
  have h : (b.byPrice.toList.map fun x => Level.mk x.1 x.2).length = b.depth := by
    rw [List.length_map, Std.ExtTreeMap.length_toList, depth]
  cases side with
  | buy => exact List.length_reverse.trans h
  | sell => exact h

theorem isEmpty_iff (b : BookSide side) : b.isEmpty = true ↔ b.depth = 0 := by
  rw [isEmpty, depth, Std.ExtTreeMap.isEmpty_eq_size_beq_zero, beq_iff_eq]

theorem top_depth (b : BookSide side) : b.top b.depth = b.levels := by
  rw [top, ← length_levels, List.take_length]

/-- One list of levels from which every view of a side can be read. -/
structure Shows (b : BookSide side) (all : List Level) : Prop where
  ordered : all.Pairwise fun l m => side.beats l.price m.price
  nodup : all.Nodup
  quantityAt : ∀ p q, b.quantityAt? p = some q ↔ ⟨p, q⟩ ∈ all
  depth : b.depth = all.length
  top : ∀ n, b.top n = all.take (min n b.depth)
  best : b.best? = all.head?
  worst : b.worst? = all.getLast?
  noBest : b.best? = none ↔ b.isEmpty = true
  noWorst : b.worst? = none ↔ b.isEmpty = true
  isEmpty : b.isEmpty = true ↔ b.depth = 0

theorem shows_levels (b : BookSide side) : Shows b b.levels := by
  have hempty : b.levels = [] ↔ b.isEmpty = true := by
    rw [isEmpty_iff, ← length_levels, List.length_eq_zero_iff]
  have hordered := b.levels_pairwise
  refine ⟨hordered, hordered.imp ?_, fun p q => (mem_levels (l := ⟨p, q⟩)).symm,
    b.length_levels.symm, fun n => ?_, b.best?_eq_head?, b.worst?_eq_getLast?, ?_, ?_,
    b.isEmpty_iff⟩
  · rintro l m hbeats rfl
    exact side.beats_irrefl l.price hbeats
  · rw [← length_levels, ← List.take_eq_take_min]
    rfl
  · rw [best?_eq_head?, List.head?_eq_none_iff, hempty]
  · rw [worst?_eq_getLast?, List.getLast?_eq_none_iff, hempty]

theorem fst_enter (b : BookSide side) (log : List SideCall) (c : SideCall) :
    (enter (b, log) c).1 = (b.call c).toOption.getD b := by
  unfold enter
  dsimp only
  cases b.call c <;> rfl

end BookSide

/-! ### Books -/

inductive BookCall
  | add (s : Side) (price : Price) (quantity : Quantity)
  | reduce (s : Side) (price : Price) (quantity : Quantity)
  | publish
  | mark (fault : BookFault)
  | clear

/-- What a call asks of a side, if anything. -/
def BookCall.forSide (s : Side) : BookCall → Option SideCall
  | add s' p q => if s' = s then some (.add p q) else none
  | reduce s' p q => if s' = s then some (.reduce p q) else none
  | publish | mark _ => none
  | clear => some .clear

namespace Book

variable {b : Book} {s s' : Side}

/-- The book after a call. One that is refused leaves the book alone. -/
def after (b : Book) : BookCall → Book
  | .add s p q => (b.add s p q).toOption.elim b Prod.fst
  | .reduce s p q => (b.reduce s p q).toOption.elim b Prod.fst
  | .publish => b.publish.1
  | .mark fault => b.markCorrupted fault
  | .clear => b.clear

/-- A new book after some calls. -/
def run (i : Instrument) (calls : List BookCall) : Book := calls.foldl after (empty i)

/-- A change of a side as one of the book. -/
def change (b : Book) (s : Side) (r : Except BookFault (BookSide s × Bool)) : Book :=
  (r.map fun x => (b.setSide s x.1, x.2)).toOption.elim b Prod.fst

theorem onSide_change (b : Book) (s : Side) (r : Except BookFault (BookSide s × Bool)) :
    (b.change s r).onSide s = (r.map Prod.fst).toOption.getD (b.onSide s) := by
  cases r with
  | error fault => rfl
  | ok x => exact onSide_setSide b s x.1

theorem onSide_change_of_ne (h : s' ≠ s) (r : Except BookFault (BookSide s × Bool)) :
    (b.change s r).onSide s' = b.onSide s' := by
  cases r with
  | error fault => rfl
  | ok x => exact onSide_setSide_of_ne b x.1 h

/-- A call that asks nothing of a side leaves it as it is. -/
theorem onSide_after_of_none {c : BookCall} (h : c.forSide s = none) :
    (b.after c).onSide s = b.onSide s := by
  cases c with
  | add s' p q =>
    have hne : s' ≠ s := by simpa [BookCall.forSide] using h
    exact onSide_change_of_ne hne.symm _
  | reduce s' p q =>
    have hne : s' ≠ s := by simpa [BookCall.forSide] using h
    exact onSide_change_of_ne hne.symm _
  | publish => exact onSide_publish b s
  | mark fault => exact onSide_markCorrupted b fault s
  | clear => cases h

theorem onSide_after_of_some {c : BookCall} {asked : SideCall} (h : c.forSide s = some asked) :
    (b.after c).onSide s = ((b.onSide s).call asked).toOption.getD (b.onSide s) := by
  cases c with
  | add s' p q =>
    obtain ⟨rfl, heq⟩ := Option.ite_none_right_eq_some.1 h
    cases heq
    exact onSide_change b _ _
  | reduce s' p q =>
    obtain ⟨rfl, heq⟩ := Option.ite_none_right_eq_some.1 h
    cases heq
    exact onSide_change b _ _
  | publish | mark => cases h
  | clear =>
    cases h
    cases s <;> rfl

/-- A side of a book is what the calls for it make of it. -/
theorem onSide_run (i : Instrument) (calls : List BookCall) (s : Side) :
    (run i calls).onSide s = (BookSide.run s (calls.filterMap (BookCall.forSide s))).1 := by
  induction calls using List.reverseRecOn with
  | nil => cases s <;> rfl
  | append_singleton calls c ih =>
    have hrun : run i (calls ++ [c]) = (run i calls).after c := List.foldl_concat ..
    rw [hrun, List.filterMap_append]
    cases hc : c.forSide s with
    | none =>
      rw [onSide_after_of_none hc, ih, List.filterMap_cons_none hc, List.filterMap_nil,
        List.append_nil]
    | some asked =>
      rw [onSide_after_of_some hc, ih, List.filterMap_cons_some hc, List.filterMap_nil,
        BookSide.run_concat, BookSide.fst_enter]

/-- The views of a book are those of its sides. -/
structure Shows (b : Book) (bids asks : List Level) : Prop where
  inside : b.inside = ⟨(b.top 1).1.head?, (b.top 1).2.head?⟩
  depth : b.depth = bids.length + asks.length
  top : ∀ n, b.top n = (bids.take n, asks.take n)
  bids : b.bids.Shows bids
  asks : b.asks.Shows asks

theorem shows_levels (b : Book) : Shows b b.bids.levels b.asks.levels where
  inside := by
    have hhead {s : Side} (x : BookSide s) : (x.top 1).head? = x.best? := by
      rw [BookSide.best?_eq_head?, BookSide.top, List.head?_take, if_neg Nat.one_ne_zero]
    rw [top, hhead, hhead, inside]
  depth := by rw [depth, BookSide.length_levels, BookSide.length_levels]
  top _ := rfl
  bids := b.bids.shows_levels
  asks := b.asks.shows_levels

/-- Whatever was called on a side, its views agree on the list of all its levels, best first.
Whatever was called on a book, its views are those of both sides, a call for one side leaves the
other as it is, and so both are what their own calls make of them. -/
theorem views_agree :
    (∀ (side : Side) (calls : List SideCall),
      let b := (BookSide.run side calls).1
      b.Shows (b.top b.depth)) ∧
    ∀ (i : Instrument) (calls : List BookCall),
      let b := run i calls
      b.Shows (b.bids.top b.bids.depth) (b.asks.top b.asks.depth) ∧
      (∀ c s, c.forSide s = none → (b.after c).onSide s = b.onSide s) ∧
      ∀ s, b.onSide s = (BookSide.run s (calls.filterMap (BookCall.forSide s))).1 := by
  refine ⟨fun side calls => ?_, fun i calls => ⟨?_, fun c s => onSide_after_of_none, ?_⟩⟩
  · dsimp only
    rw [BookSide.top_depth]
    exact BookSide.shows_levels _
  · rw [BookSide.top_depth, BookSide.top_depth]
    exact shows_levels _
  · exact onSide_run i calls

end Book
end TopOfBook
