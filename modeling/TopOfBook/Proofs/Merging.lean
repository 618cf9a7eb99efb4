import Mathlib.Tactic.Common
import TopOfBook.Engine.Counters
import TopOfBook.Proofs.OrderedMap
import TopOfBook.Statistics.Depth
import TopOfBook.Statistics.Feed

/-! What was recorded in two parts and then merged is what would have been recorded in one go.
Recording and merging commute on either side, for tallies, extremes, histograms and counters, and
so a record of the samples of two kinds is the merge of the records of each kind. -/

namespace TopOfBook

/-- Merging commutes with recording on either side, where the two sides belong together. -/
structure Merges {α β : Type} (together : β → β → Prop) (record : β → α → β)
    (plus : β → β → β) : Prop where
  left : ∀ {a b}, together a b → ∀ x,
    together (record a x) b ∧ plus (record a x) b = record (plus a b) x
  right : ∀ {a b}, together a b → ∀ x,
    together a (record b x) ∧ plus a (record b x) = record (plus a b) x

/-- A record of the samples of two kinds is the merge of the records of each kind. -/
theorem Merges.foldl_filter_or {α β : Type} {together : β → β → Prop} {record : β → α → β}
    {plus : β → β → β} (h : Merges together record plus) {p q : α → Bool}
    (hpq : ∀ x, p x = true → q x = false) (l : List α) {a b : β} (hab : together a b) :
    together ((l.filter p).foldl record a) ((l.filter q).foldl record b) ∧
      plus ((l.filter p).foldl record a) ((l.filter q).foldl record b) =
        (l.filter fun x => p x || q x).foldl record (plus a b) := by
  induction l generalizing a b with
  | nil => exact ⟨hab, rfl⟩
  | cons x l ih =>
    cases hp : p x with
    | true =>
      obtain ⟨htogether, hplus⟩ := h.left hab x
      simp only [List.filter_cons, hp, hpq x hp, Bool.true_or, if_true, Bool.false_eq_true,
        if_false, List.foldl_cons, ← hplus]
      exact ih htogether
    | false =>
      cases hq : q x with
      | true =>
        obtain ⟨htogether, hplus⟩ := h.right hab x
        simp only [List.filter_cons, hp, hq, Bool.or_true, if_true, Bool.false_eq_true,
          if_false, List.foldl_cons, ← hplus]
        exact ih htogether
      | false =>
        simp only [List.filter_cons, hp, hq, Bool.or_false, Bool.false_eq_true, if_false]
        exact ih hab

/-- What two lists left on their own merges to the record of both. -/
theorem Merges.foldl_append {α β : Type} {together : β → β → Prop} {record : β → α → β}
    {plus : β → β → β} (h : Merges together record plus) (xs ys : List α) {a b : β}
    (hab : together a b) :
    together (xs.foldl record a) (ys.foldl record b) ∧
      plus (xs.foldl record a) (ys.foldl record b) = (xs ++ ys).foldl record (plus a b) := by
  induction xs generalizing a with
  | cons x xs ih =>
    obtain ⟨htogether, hplus⟩ := h.left hab x
    rw [List.cons_append, List.foldl_cons, List.foldl_cons, ← hplus]
    exact ih htogether
  | nil =>
    induction ys generalizing b with
    | nil => exact ⟨hab, rfl⟩
    | cons y ys ih =>
      obtain ⟨htogether, hplus⟩ := h.right hab y
      rw [List.nil_append, List.foldl_cons, List.foldl_cons, ← hplus]
      exact ih htogether

/-- Where there is something to merge with that changes nothing, the order of recording does not
matter: of two things one can be recorded there first. -/
theorem Merges.record_comm {α β : Type} {together : β → β → Prop} {record : β → α → β}
    {plus : β → β → β} (h : Merges together record plus) {a unit : β} (hunit : together a unit)
    (hplus : plus a unit = a) (x y : α) : record (record a x) y = record (record a y) x := by
  obtain ⟨hx, hax⟩ := h.right hunit x
  obtain ⟨hy, hay⟩ := h.left hunit y
  calc record (record a x) y = record (plus a (record unit x)) y := by rw [hax, hplus]
    _ = plus (record a y) (record unit x) := (h.left hx y).2.symm
    _ = record (plus (record a y) unit) x := (h.right hy x).2
    _ = record (record a y) x := by rw [hay, hplus]

/-! ### Tallies -/

namespace Tally

variable {t a b : Tally} {bin weight k : Nat}

theorem ext_getElem? (h : ∀ k : Nat, a.weights[k]? = b.weights[k]?) : a = b := by
  cases a; cases b
  exact congrArg Tally.mk (Std.ExtTreeMap.ext_getElem? h)

theorem weight_eq (t : Tally) (k : Nat) : t.weight k = (t.weights[k]?).getD 0 :=
  Std.ExtTreeMap.getD_eq_getD_getElem?

/-- Weight that is not zero is added to what is there. -/
theorem getElem?_add (t : Tally) (bin weight k : Nat) :
    (t.add bin weight).weights[k]? =
      if k = bin ∧ weight ≠ 0 then some (t.weight k + weight) else t.weights[k]? := by
  unfold add
  by_cases hw : weight = 0
  · simp [hw]
  · rw [if_neg hw, weight_eq]
    dsimp only
    rw [Std.ExtTreeMap.getElem?_alter]
    by_cases hk : k = bin
    · subst hk
      simp [hw]
    · simp [hk, Ne.symm hk]

theorem weight_add (t : Tally) (bin weight k : Nat) :
    (t.add bin weight).weight k = t.weight k + if k = bin then weight else 0 := by
  rw [weight_eq, getElem?_add, weight_eq]
  by_cases hk : k = bin
  · by_cases hw : weight = 0
    · simp [hw]
    · simp [hk, hw]
  · simp [hk]

theorem add_add (t : Tally) (bin v w : Nat) : (t.add bin v).add bin w = t.add bin (v + w) := by
  apply ext_getElem?
  intro k
  rw [getElem?_add, getElem?_add, getElem?_add, weight_add]
  by_cases hk : k = bin
  · subst hk
    by_cases hw : w = 0
    · simp [hw]
    · simp [hw, Nat.add_assoc]
  · simp [hk]

/-- The weight that a list of bins puts into one of them. -/
def weightIn (k : Nat) (l : List (Nat × Nat)) : Nat :=
  (l.filter fun x => x.1 = k).foldr (fun x n => x.2 + n) 0

private theorem getElem?_foldl_add (k : Nat) (l : List (Nat × Nat)) (t : Tally) :
    (l.foldl (fun t (bin, weight) => t.add bin weight) t).weights[k]? =
      if weightIn k l = 0 then t.weights[k]? else some (t.weight k + weightIn k l) := by
  induction l generalizing t with
  | nil => simp [weightIn]
  | cons x l ih =>
    obtain ⟨bin, weight⟩ := x
    have hin : weightIn k ((bin, weight) :: l) =
        (if k = bin then weight else 0) + weightIn k l := by
      unfold weightIn
      by_cases hk : bin = k
      · simp [hk]
      · simp [hk, Ne.symm hk]
    rw [List.foldl_cons, ih, getElem?_add, weight_add, hin]
    by_cases hk : k = bin
    · subst hk
      by_cases hw : weight = 0
      · simp [hw]
      · by_cases hl : weightIn k l = 0
        · simp [hw, hl]
        · simp [hw, hl, Nat.add_assoc]
    · simp [hk]

theorem weightIn_toList (t : Tally) (k : Nat) : weightIn k t.toList = t.weight k := by
  have hnone {m : Std.ExtTreeMap Nat Nat} (hm : m[k]? = none) : weightIn k m.toList = 0 := by
    rw [weightIn, List.filter_eq_nil_iff.2]
    · rfl
    · intro x hx
      rw [decide_eq_true_eq]
      rintro rfl
      rw [Std.ExtTreeMap.mem_toList_iff_getElem?_eq_some, hm] at hx
      cases hx
  rw [weight_eq]
  cases hk : t.weights[k]? with
  | none => exact hnone hk
  | some weight =>
    have hperm := OrderedMap.toList_erase_perm t.weights hk
    have hsum := (hperm.filter fun x : Nat × Nat => x.1 = k).foldr_eq' (f := fun x n => x.2 + n)
      (fun x _ y _ n => Nat.add_left_comm y.2 x.2 n) 0
    have hrest := hnone (m := t.weights.erase k) Std.ExtTreeMap.getElem?_erase_self
    unfold weightIn at hrest ⊢
    rw [show t.toList = t.weights.toList from rfl, hsum]
    simp [hrest]

theorem getElem?_merge (a b : Tally) (k : Nat) :
    (a.merge b).weights[k]? =
      if b.weight k = 0 then a.weights[k]? else some (a.weight k + b.weight k) := by
  rw [merge, getElem?_foldl_add, weightIn_toList]

theorem weight_merge (a b : Tally) (k : Nat) : (a.merge b).weight k = a.weight k + b.weight k := by
  rw [weight_eq, getElem?_merge]
  split
  · rw [‹b.weight k = 0›, ← weight_eq, Nat.add_zero]
  · rfl

theorem add_merge (a b : Tally) (bin weight : Nat) :
    (a.add bin weight).merge b = (a.merge b).add bin weight := by
  apply ext_getElem?
  intro k
  rw [getElem?_merge, getElem?_add, getElem?_add, getElem?_merge, weight_add, weight_merge]
  by_cases hk : k = bin
  · subst hk
    by_cases hw : weight = 0
    · simp [hw]
    · by_cases hb : b.weight k = 0
      · simp [hw, hb]
      · simp [hw, hb, Nat.add_right_comm]
  · simp [hk]

theorem merge_add (a b : Tally) (bin weight : Nat) :
    a.merge (b.add bin weight) = (a.merge b).add bin weight := by
  apply ext_getElem?
  intro k
  rw [getElem?_merge, getElem?_add, getElem?_merge, weight_add, weight_merge]
  by_cases hk : k = bin
  · subst hk
    by_cases hw : weight = 0
    · simp [hw]
    · simp [hw, Nat.add_assoc]
  · simp [hk]

end Tally

/-! ### Extremes -/

namespace Extremes

variable {T : Type} [LT T] [DecidableLT T] [LE T] [Std.IsLinearOrder T] [Std.LawfulOrderLT T]

theorem widen_comm (seen : Option (Extremes T)) (a b c d : T) :
    widen (some (widen seen a b)) c d = widen (some (widen seen c d)) a b := by
  cases seen with
  | none =>
    simp only [widen, Extremes.mk.injEq]
    grind
  | some e =>
    simp only [widen, Extremes.mk.injEq]
    grind

theorem widen_self (seen : Option (Extremes T)) (x : T) :
    widen (some (widen seen x x)) x x = widen seen x x := by
  cases seen with
  | none =>
    simp only [widen, Extremes.mk.injEq]
    grind
  | some e =>
    simp only [widen, Extremes.mk.injEq]
    grind

/-- Widening by extremes that were widened themselves is widening twice. -/
theorem widen_widen (seen : Option (Extremes T)) (e : Extremes T) (x : T) :
    widen seen (widen (some e) x x).smallest (widen (some e) x x).largest =
      widen (some (widen seen e.smallest e.largest)) x x := by
  cases seen with
  | none => rfl
  | some e' =>
    simp only [widen, Extremes.mk.injEq]
    grind

end Extremes

/-! ### Histograms -/

private theorem ite_succ_add (p : Prop) [Decidable p] (m n : Nat) :
    (if p then m + 1 else m) + n = if p then m + n + 1 else m + n := by
  split <;> omega

private theorem add_ite_succ (p : Prop) [Decidable p] (m n : Nat) :
    (m + if p then n + 1 else n) = if p then m + n + 1 else m + n := by
  split <;> omega

namespace Histogram

variable {B T : Type} [LT T] [DecidableLT T]

/-- All samples of two histograms with the same bins. -/
def plus (a b : Histogram B T) : Histogram B T :=
  { a with
    bins := a.bins.merge b.bins
    samples := a.samples + b.samples
    underflow := a.underflow + b.underflow
    overflow := a.overflow + b.overflow
    extremes :=
      match b.extremes with
      | none => a.extremes
      | some e => some (Extremes.widen a.extremes e.smallest e.largest) }

theorem merge_eq_plus [BEq B] [ReflBEq B] {a b : Histogram B T} (h : a.binning = b.binning) :
    a.merge b = .ok (a.plus b) := by
  rw [merge, if_pos]
  · rfl
  · rw [h]
    exact BEq.rfl

theorem plus_empty (h : Histogram B T) : h.plus (empty h.binning) = h := by
  have hbins : h.bins.merge .empty = h.bins := rfl
  simp only [plus, empty, hbins, Nat.add_zero]

theorem empty_plus_empty (binning : B) :
    (empty binning : Histogram B T).plus (empty binning) = empty binning :=
  plus_empty (empty binning)

variable [Binning B T]

@[simp] theorem binning_addWeighted (h : Histogram B T) (x : T) (weight : Nat) :
    (h.addWeighted x weight).binning = h.binning := by
  unfold addWeighted
  split <;> rfl

@[simp] theorem binning_add (h : Histogram B T) (x : T) : (h.add x).binning = h.binning :=
  h.binning_addWeighted x 1

theorem merges_add [LE T] [Std.IsLinearOrder T] [Std.LawfulOrderLT T] :
    Merges (fun a b : Histogram B T => a.binning = b.binning) add plus where
  left {a b} hab x := by
    refine ⟨by rw [binning_add, hab], ?_⟩
    simp only [add, addWeighted, plus, Nat.one_ne_zero, if_false, mk.injEq, Tally.add_merge,
      ite_succ_add, true_and]
    refine ⟨by omega, rfl, rfl, ?_⟩
    cases b.extremes with
    | none => rfl
    | some e => exact congrArg some (Extremes.widen_comm _ _ _ _ _)
  right {a b} hab x := by
    refine ⟨by rw [binning_add, hab], ?_⟩
    simp only [add, addWeighted, plus, Nat.one_ne_zero, if_false, mk.injEq, Tally.merge_add, hab,
      add_ite_succ, true_and]
    refine ⟨by omega, ?_⟩
    cases b.extremes with
    | none => rfl
    | some e => exact congrArg some (Extremes.widen_widen _ _ _)

end Histogram

instance : ReflBEq ChosenBinning where
  rfl {b} := by
    cases b with
    | integerRange r => exact beq_self_eq_true r
    | explicitCuts c => exact beq_self_eq_true c.points

/-! ### Counters -/

namespace Counters

private theorem zipWith_set_left (a b : Vector Nat 9) (k : Fin 9) :
    (a.set k (a[k] + 1)).zipWith (· + ·) b =
      (a.zipWith (· + ·) b).set k ((a.zipWith (· + ·) b)[k] + 1) := by
  apply Vector.ext
  intro j hj
  by_cases h : k.val = j
  · subst h
    simp [Nat.add_right_comm]
  · simp [h]

private theorem zipWith_set_right (a b : Vector Nat 9) (k : Fin 9) :
    a.zipWith (· + ·) (b.set k (b[k] + 1)) =
      (a.zipWith (· + ·) b).set k ((a.zipWith (· + ·) b)[k] + 1) := by
  apply Vector.ext
  intro j hj
  by_cases h : k.val = j
  · subst h
    simp [Nat.add_assoc]
  · simp [h]

theorem merge_zero_zero : zero.merge zero = zero := by
  have hkinds : (Vector.replicate 9 0).zipWith (· + ·) (Vector.replicate 9 0) =
      Vector.replicate 9 0 := by
    apply Vector.ext
    intro k hk
    simp
  simp only [merge, zero, hkinds]

theorem recordEvent_merge (a b : Counters) (kind : Kind) :
    (a.recordEvent kind).merge b = (a.merge b).recordEvent kind := by
  simp only [merge, recordEvent, mk.injEq, zipWith_set_left, and_true]
  omega

theorem merge_recordEvent (a b : Counters) (kind : Kind) :
    a.merge (b.recordEvent kind) = (a.merge b).recordEvent kind := by
  simp only [merge, recordEvent, mk.injEq, zipWith_set_right, and_true]
  omega

theorem recordOutcome_merge (a b : Counters) (outcome : Outcome) :
    (a.recordOutcome outcome).merge b = (a.merge b).recordOutcome outcome := by
  rcases outcome with (_ | _) | _ | _ <;>
    simp only [merge, recordOutcome, mk.injEq, true_and, and_true] <;> omega

theorem merge_recordOutcome (a b : Counters) (outcome : Outcome) :
    a.merge (b.recordOutcome outcome) = (a.merge b).recordOutcome outcome := by
  rcases outcome with (_ | _) | _ | _ <;>
    simp only [merge, recordOutcome, mk.injEq, true_and, and_true] <;> omega

end Counters
end TopOfBook
