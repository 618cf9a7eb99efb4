import Mathlib.Data.List.DropRight
import TopOfBook.Proofs.Levels
import TopOfBook.Proofs.Results

/-! A side of a book is a ledger of the calls that went through: the shares at a price are what
was put there less what was taken off since the side was cleared, and a price where nothing is left
has no level. A call that is refused leaves no entry and changes no level. In place a level is made
before it is known whether the shares fit on it, so that this takes a proof. -/

namespace TopOfBook

inductive SideCall
  | add (price : Price) (quantity : Quantity)
  | reduce (price : Price) (quantity : Quantity)
  | clear

namespace SideCall

def isClear : SideCall → Bool
  | clear => true
  | _ => false

def addedAt (p : Price) : SideCall → Nat
  | add price quantity => if price = p then quantity.toNat else 0
  | _ => 0

def reducedAt (p : Price) : SideCall → Nat
  | reduce price quantity => if price = p then quantity.toNat else 0
  | _ => 0

/-- The calls since the side was cleared last, oldest first. -/
def sinceClear (log : List SideCall) : List SideCall := log.rtakeWhile fun c => !c.isClear

/-- The shares put at a price since the side was cleared last. -/
def totalAdded (p : Price) (log : List SideCall) : Nat := ((sinceClear log).map (addedAt p)).sum

/-- The shares taken off a price since the side was cleared last. -/
def totalReduced (p : Price) (log : List SideCall) : Nat :=
  ((sinceClear log).map (reducedAt p)).sum

variable {log : List SideCall} {c : SideCall}

theorem sinceClear_concat (h : c.isClear = false) :
    sinceClear (log ++ [c]) = sinceClear log ++ [c] := by
  rw [sinceClear, List.rtakeWhile_concat_pos _ _ _ (by rw [h, Bool.not_false]), sinceClear]

theorem sinceClear_concat_clear : sinceClear (log ++ [clear]) = [] :=
  List.rtakeWhile_concat_neg _ _ _ (by simp [isClear])

theorem totalAdded_concat (p : Price) (h : c.isClear = false) :
    totalAdded p (log ++ [c]) = totalAdded p log + c.addedAt p := by
  simp [totalAdded, sinceClear_concat h]

theorem totalReduced_concat (p : Price) (h : c.isClear = false) :
    totalReduced p (log ++ [c]) = totalReduced p log + c.reducedAt p := by
  simp [totalReduced, sinceClear_concat h]

end SideCall

open SideCall

namespace BookSide

variable {side : Side} {b b' : BookSide side} {log : List SideCall} {c : SideCall} {p : Price}
  {q : Quantity}

def call (b : BookSide side) : SideCall → Except BookFault (BookSide side)
  | .add p q => (b.add p q).map Prod.fst
  | .reduce p q => (b.reduce p q).map Prod.fst
  | .clear => .ok .empty

/-! ### Calls in place -/

/-- Adds in place. A level is made, without shares, where there is none. -/
def addInPlace (b : BookSide side) (p : Price) (q : Quantity) :
    BookSide side × Except BookFault Bool :=
  if q.isZero then (b, .ok false)
  else
    let available := (b.quantityAt? p).getD .zero
    let b : BookSide side := ⟨b.byPrice.insert p available⟩
    match available.add? q with
    | none => (b, .error (.levelOverflow side p q available))
    | some sum =>
      let b : BookSide side := ⟨b.byPrice.insert p sum⟩
      (b, .ok (b.isBest p))

/-- Takes away in place. A level without shares would count as none. -/
def reduceInPlace (b : BookSide side) (p : Price) (q : Quantity) :
    BookSide side × Except BookFault Bool :=
  let wasBest := b.isBest p
  let available := (b.quantityAt? p).getD .zero
  match if available.isZero then none else available.sub? q with
  | none => (b, .error (.levelShortage side p q available))
  | some rest =>
    if rest.isZero then (⟨b.byPrice.erase p⟩, .ok wasBest)
    else (⟨b.byPrice.insert p rest⟩, .ok wasBest)

theorem addInPlace_eq (b : BookSide side) (p : Price) (q : Quantity) :
    b.addInPlace p q = settle b (b.add p q) := by
  unfold addInPlace add
  split
  · rfl
  · dsimp only
    cases hsum : ((b.quantityAt? p).getD .zero).add? q with
    | some sum => simp only [OrderedMap.insert_insert, settle]
    | none =>
      -- only a level that is there can have no room
      cases hlevel : b.quantityAt? p with
      | none =>
        have hmax := q.toNat_le_maximum
        rw [hlevel, Quantity.add?_eq_none_iff, Option.getD_none, Quantity.toNat_zero] at hsum
        omega
      | some available =>
        have hagain : b.byPrice.insert p available = b.byPrice :=
          OrderedMap.insert_of_some b.byPrice hlevel
        simp only [settle, Option.getD_some, hagain]

theorem reduceInPlace_eq (hb : b.Filled) (p : Price) (q : Quantity) :
    b.reduceInPlace p q = settle b (b.reduce p q) := by
  unfold reduceInPlace reduce
  dsimp only
  cases hlevel : b.quantityAt? p with
  | none => rfl
  | some available =>
    have hfilled := Quantity.isZero_eq_false_iff.2 (hb p available hlevel)
    rw [Option.getD_some, hfilled, if_neg Bool.false_ne_true]
    dsimp only
    cases available.sub? q with
    | none => rfl
    | some rest =>
      dsimp only
      split <;> rfl

/-- The side after a call in place. -/
def after (b : BookSide side) : SideCall → BookSide side
  | .add p q => (b.addInPlace p q).1
  | .reduce p q => (b.reduceInPlace p q).1
  | .clear => .empty

/-- In place a side is left as the call says, or as it was when the call is refused. -/
theorem after_eq (hb : b.Filled) (c : SideCall) : b.after c = (b.call c).toOption.getD b := by
  cases c with
  | add p q => rw [after, addInPlace_eq, fst_settle, call]
  | reduce p q => rw [after, reduceInPlace_eq hb, fst_settle, call]
  | clear => rfl

/-! ### The ledger -/

/-- Enters a call that goes through. One that is refused leaves the side and the log alone. -/
def enter (entered : BookSide side × List SideCall) (c : SideCall) :
    BookSide side × List SideCall :=
  match entered.1.call c with
  | .ok b => (b, entered.2 ++ [c])
  | .error _ => entered

/-- A new side after some calls, with those that went through. -/
def run (side : Side) (calls : List SideCall) : BookSide side × List SideCall :=
  calls.foldl enter (.empty, [])

theorem run_concat (side : Side) (calls : List SideCall) (c : SideCall) :
    run side (calls ++ [c]) = enter (run side calls) c := by
  rw [run, List.foldl_append, List.foldl_cons, List.foldl_nil, run]

/-- The levels are what the log puts there, and no level is empty. -/
structure Follows (b : BookSide side) (log : List SideCall) : Prop where
  filled : b.Filled
  balance : ∀ p, b.sharesAt p + totalReduced p log = totalAdded p log

theorem follows_empty : Follows (.empty : BookSide side) [] :=
  ⟨filled_empty, fun p => by rw [sharesAt_empty]; rfl⟩

theorem Follows.call (h : Follows b log) (hc : b.call c = .ok b') : Follows b' (log ++ [c]) := by
  cases c with
  | add p q =>
    obtain ⟨⟨_, touched⟩, hadd, rfl⟩ := exists_of_map_eq_ok hc
    refine ⟨h.filled.add hadd, fun p' => ?_⟩
    have hbalance := h.balance p'
    rw [totalAdded_concat p' rfl, totalReduced_concat p' rfl, sharesAt_add hadd]
    simp only [addedAt, reducedAt, eq_comm]
    omega
  | reduce p q =>
    obtain ⟨⟨_, touched⟩, hreduce, rfl⟩ := exists_of_map_eq_ok hc
    refine ⟨h.filled.reduce hreduce, fun p' => ?_⟩
    have hbalance := h.balance p'
    have hshares := sharesAt_reduce hreduce p'
    rw [totalAdded_concat p' rfl, totalReduced_concat p' rfl]
    simp only [addedAt, reducedAt, @eq_comm _ p p']
    omega
  | clear =>
    cases hc
    refine ⟨filled_empty, fun p => ?_⟩
    rw [sharesAt_empty, totalAdded, totalReduced, sinceClear_concat_clear]
    rfl

theorem follows_run (side : Side) (calls : List SideCall) :
    Follows (run side calls).1 (run side calls).2 := by
  induction calls using List.reverseRecOn with
  | nil => exact follows_empty
  | append_singleton calls c ih =>
    rw [run_concat, enter]
    split
    · exact ih.call ‹_›
    · exact ih

/-- Calls in place lead to the same side as calls that enter the log only when they go through. -/
theorem foldl_after (side : Side) (calls : List SideCall) :
    calls.foldl after (.empty : BookSide side) = (run side calls).1 := by
  induction calls using List.reverseRecOn with
  | nil => rfl
  | append_singleton calls c ih =>
    rw [List.foldl_concat, ih, run_concat, enter, after_eq (follows_run side calls).filled]
    cases (run side calls).1.call c <;> rfl

/-- The level at a price is the balance of what went through there, and is missing when that is
nothing. -/
theorem Follows.quantityAt? (h : Follows b log) (p : Price) :
    (b.quantityAt? p).elim 0 Quantity.toNat + totalReduced p log = totalAdded p log ∧
      (b.quantityAt? p = none ↔ totalAdded p log = totalReduced p log) := by
  refine ⟨h.balance p, ?_⟩
  have hbalance := h.balance p
  unfold sharesAt at hbalance
  cases hq : b.quantityAt? p with
  | none =>
    rw [hq, Option.elim_none, Nat.zero_add] at hbalance
    exact ⟨fun _ => hbalance.symm, fun _ => rfl⟩
  | some q =>
    have hpos := h.filled p q hq
    rw [hq, Option.elim_some] at hbalance
    simp only [reduceCtorEq, false_iff]
    omega

/-- After any calls, refused ones among them: the shares at a price are what was added there since
the side was cleared last less what was taken off, with no level where that is nothing. Adding
fails exactly for shares that the word of the level cannot hold, taking away exactly where there is
no level or one too small, and both tell the shares there. What fails changes nothing. In place
the same calls lead to the same side and have the same answers, and leave it as it was when they
fail. -/
theorem run_balances (side : Side) (calls : List SideCall) :
    let b := (run side calls).1
    let log := (run side calls).2
    (∀ p, (b.quantityAt? p).elim 0 Quantity.toNat + totalReduced p log = totalAdded p log ∧
      (b.quantityAt? p = none ↔ totalAdded p log = totalReduced p log)) ∧
    (∀ p q fault, b.add p q = .error fault ↔
      (0 < q.toNat ∧ 2 ^ 64 - 1 < ((b.quantityAt? p).getD .zero).toNat + q.toNat) ∧
        fault = .levelOverflow side p q ((b.quantityAt? p).getD .zero)) ∧
    (∀ p q fault, b.reduce p q = .error fault ↔
      (b.quantityAt? p = none ∨ ((b.quantityAt? p).getD .zero).toNat < q.toNat) ∧
        fault = .levelShortage side p q ((b.quantityAt? p).getD .zero)) ∧
    (∀ c fault, b.call c = .error fault → run side (calls ++ [c]) = (b, log)) ∧
    calls.foldl after (.empty : BookSide side) = b ∧
    ∀ p q, b.addInPlace p q = settle b (b.add p q) ∧
      b.reduceInPlace p q = settle b (b.reduce p q) := by
  intro b log
  have hfollows : Follows b log := follows_run side calls
  refine ⟨hfollows.quantityAt?, fun p q fault => ?_, fun p q fault => ?_, fun c fault hc => ?_,
    foldl_after side calls,
    fun p q => ⟨b.addInPlace_eq p q, reduceInPlace_eq hfollows.filled p q⟩⟩
  · have hmax := ((b.quantityAt? p).getD .zero).toNat_le_maximum
    rw [add_eq_error_iff, ← toNat_quantityAt?_getD]
    refine and_congr_left fun _ => ?_
    simp only [Quantity.maximum, UInt64.size] at hmax ⊢
    omega
  · rw [reduce_eq_error_iff, ← toNat_quantityAt?_getD]
  · rw [run_concat, enter, hc]

end BookSide
end TopOfBook
