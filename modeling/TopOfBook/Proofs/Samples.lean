import Mathlib.Algebra.BigOperators.Group.Finset.Piecewise
import TopOfBook.Proofs.Merging
import TopOfBook.Proofs.Placements
import TopOfBook.Proofs.Results

/-! A histogram depends on nothing but the samples it stands for, each as often as its weight
says. A sample of some weight is as many single ones, single samples may change places, and what
is merged is counted as if it had come in one list. In place the fields are merged one after the
other, all of them or, where the bins are not the same, none. -/

namespace TopOfBook

/-! ### Weighted samples -/

namespace Weighted

variable {T : Type}

/-- The samples of a list, each as often as its weight says. -/
def copies (xs : List (T × Nat)) : List T := xs.flatMap fun x => List.replicate x.2 x.1

/-- The samples of a list that have any weight. -/
def present (xs : List (T × Nat)) : List T := (xs.filter fun x => x.2 ≠ 0).map Prod.fst

def total (xs : List (T × Nat)) : Nat := (xs.map Prod.snd).sum

/-- The weight of the samples with a property. -/
def totalWhere (p : T → Bool) (xs : List (T × Nat)) : Nat := total (xs.filter fun x => p x.1)

theorem copies_append (xs ys : List (T × Nat)) : copies (xs ++ ys) = copies xs ++ copies ys :=
  List.flatMap_append

theorem copies_replicate_one (x : T) (w : Nat) :
    copies (List.replicate w (x, 1)) = copies [(x, w)] := by
  simp [copies, List.flatMap_replicate]

theorem totalWhere_concat (p : T → Bool) (xs : List (T × Nat)) (x : T) (w : Nat) :
    totalWhere p (xs ++ [(x, w)]) = totalWhere p xs + if p x then w else 0 := by
  cases hp : p x <;> simp [totalWhere, total, hp]

theorem total_concat (xs : List (T × Nat)) (x : T) (w : Nat) :
    total (xs ++ [(x, w)]) = total xs + w := by
  simp [total]

theorem length_copies (xs : List (T × Nat)) : (copies xs).length = total xs := by
  simp [copies, total, List.length_flatMap]

theorem countP_copies (p : T → Bool) (xs : List (T × Nat)) :
    (copies xs).countP p = totalWhere p xs := by
  induction xs with
  | nil => rfl
  | cons x xs ih =>
    rw [copies, List.flatMap_cons, ← copies, List.countP_append, ih, List.countP_replicate]
    cases hp : p x.1 <;> simp [totalWhere, total, hp]

theorem totalWhere_le_total (p : T → Bool) (xs : List (T × Nat)) : totalWhere p xs ≤ total xs := by
  rw [← countP_copies, ← length_copies]
  exact List.countP_le_length

theorem present_concat (xs : List (T × Nat)) (x : T) (w : Nat) :
    present (xs ++ [(x, w)]) = present xs ++ if w = 0 then [] else [x] := by
  by_cases hw : w = 0 <;> simp [present, hw]

end Weighted

/-- The smallest and the largest of some samples. -/
structure Extremes.Spans {T : Type} [LE T] (e : Extremes T) (xs : List T) : Prop where
  smallest_mem : e.smallest ∈ xs
  largest_mem : e.largest ∈ xs
  le : ∀ x ∈ xs, e.smallest ≤ x ∧ x ≤ e.largest

/-- The extremes of one more sample. -/
theorem Extremes.spans_widen {T : Type} [LT T] [DecidableLT T] [LE T] [Std.IsLinearOrder T]
    [Std.LawfulOrderLT T] {seen : Option (Extremes T)} {xs : List T}
    (hnone : seen = none → xs = []) (hsome : ∀ e, seen = some e → e.Spans xs) (x : T) :
    (widen seen x x).Spans (xs ++ [x]) := by
  cases seen with
  | none =>
    rw [hnone rfl]
    refine ⟨List.mem_singleton_self x, List.mem_singleton_self x, ?_⟩
    grind [widen]
  | some e =>
    obtain ⟨hsmallest, hlargest, hle⟩ := hsome e rfl
    refine ⟨?_, ?_, ?_⟩ <;> grind [widen]

open Weighted

namespace Histogram

/-- Merges in place, one field after the other. -/
def mergeInPlace {B T : Type} [BEq B] [LT T] [DecidableLT T] (a b : Histogram B T) :
    Histogram B T × Except HistogramFault Unit :=
  if a.binning == b.binning then
    let a := { a with bins := a.bins.merge b.bins }
    let a := { a with samples := a.samples + b.samples }
    let a := { a with underflow := a.underflow + b.underflow }
    let a := { a with overflow := a.overflow + b.overflow }
    match b.extremes with
    | none => (a, .ok ())
    | some e =>
      ({ a with extremes := some (Extremes.widen a.extremes e.smallest e.largest) }, .ok ())
  else (a, .error .differentBinning)

theorem mergeInPlace_eq {B T : Type} [BEq B] [LT T] [DecidableLT T] (a b : Histogram B T) :
    a.mergeInPlace b = settle a ((a.merge b).map fun both => (both, ())) := by
  unfold mergeInPlace merge
  split
  · cases b.extremes <;> rfl
  · rfl

/-- The bins, the sums and the extremes that a list of weighted samples gives. -/
structure Counts {B T : Type} [Binning B T] [LE T] (b : B) (xs : List (T × Nat))
    (h : Histogram B T) : Prop where
  binning : h.binning = b
  weight : ∀ bin, h.bins.weight bin = totalWhere (Binning.binOf b · = bin) xs
  samples : h.samples = total xs
  sum_bins : ∑ bin ∈ Finset.range (Binning.size b), h.bins.weight bin = total xs
  underflow : h.underflow = totalWhere (Binning.locate b · = .underflow) xs
  overflow : h.overflow = totalWhere (Binning.locate b · = .overflow) xs
  extremes_eq_none : h.extremes = none ↔ present xs = []
  extremes_eq_some : ∀ e, h.extremes = some e → e.Spans (present xs)

section Fill

variable {B T : Type} [Binning B T] [LT T] [DecidableLT T]

/-- A histogram of nothing but the given samples. -/
def ofSamples (b : B) (xs : List (T × Nat)) : Histogram B T :=
  xs.foldl (fun h x => h.addWeighted x.1 x.2) (empty b)

theorem binning_ofSamples (b : B) (xs : List (T × Nat)) : (ofSamples b xs).binning = b := by
  induction xs using List.reverseRecOn with
  | nil => rfl
  | append_singleton xs x ih => simpa [ofSamples] using ih

variable [LE T] [Std.IsLinearOrder T] [Std.LawfulOrderLT T]

theorem addWeighted_succ (h : Histogram B T) (x : T) (w : Nat) :
    h.addWeighted x (w + 1) = (h.add x).addWeighted x w := by
  by_cases hw : w = 0
  · subst hw
    rfl
  · simp only [add, addWeighted, Nat.add_one_ne_zero, hw, if_false,
      Tally.add_add, Extremes.widen_self, mk.injEq, true_and]
    refine ⟨by rw [Nat.add_comm 1], by omega, ?_, ?_, trivial⟩ <;> split_ifs <;> omega

/-- A sample of some weight counts like as many single ones. -/
theorem addWeighted_eq_foldl (h : Histogram B T) (x : T) (w : Nat) :
    h.addWeighted x w = (List.replicate w x).foldl add h := by
  induction w generalizing h with
  | zero => rfl
  | succ w ih => rw [addWeighted_succ, ih, List.replicate_succ, List.foldl_cons]

theorem ofSamples_eq_foldl (b : B) (xs : List (T × Nat)) :
    ofSamples b xs = (copies xs).foldl add (empty b) := by
  rw [ofSamples, copies, List.foldl_flatMap]
  congr 1
  funext h x
  exact h.addWeighted_eq_foldl x.1 x.2

theorem add_comm (h : Histogram B T) (x y : T) : (h.add x).add y = (h.add y).add x :=
  merges_add.record_comm (show h.binning = (empty h.binning : Histogram B T).binning from rfl)
    h.plus_empty x y

theorem ofSamples_perm (b : B) {xs ys : List (T × Nat)} (h : (copies xs).Perm (copies ys)) :
    ofSamples b xs = ofSamples b ys := by
  rw [ofSamples_eq_foldl, ofSamples_eq_foldl]
  exact h.foldl_eq' (fun x _ y _ h => h.add_comm x y) _

theorem merge_ofSamples [BEq B] [ReflBEq B] (b : B) (xs ys : List (T × Nat)) :
    (ofSamples b xs).merge (ofSamples b ys) = .ok (ofSamples b (xs ++ ys)) := by
  rw [merge_eq_plus ((binning_ofSamples b xs).trans (binning_ofSamples b ys).symm)]
  simp only [ofSamples_eq_foldl, copies_append]
  rw [(merges_add.foldl_append (copies xs) (copies ys) rfl).2, empty_plus_empty]

omit [LT T] [DecidableLT T] [Std.IsLinearOrder T] [Std.LawfulOrderLT T] in
theorem counts_empty (b : B) : Counts b [] (empty b : Histogram B T) where
  binning := rfl
  weight _ := rfl
  samples := rfl
  sum_bins := Finset.sum_eq_zero fun _ _ => rfl
  underflow := rfl
  overflow := rfl
  extremes_eq_none := ⟨fun _ => rfl, fun _ => rfl⟩
  extremes_eq_some _ he := nomatch he

theorem Counts.addWeighted [LawfulBinning B] {b : B} {xs : List (T × Nat)} {h : Histogram B T}
    (hxs : Counts b xs h) (x : T) (w : Nat) :
    Counts b (xs ++ [(x, w)]) (h.addWeighted x w) := by
  by_cases hw : w = 0
  · subst hw
    have htotal (p : T → Bool) : totalWhere p (xs ++ [(x, 0)]) = totalWhere p xs := by
      rw [totalWhere_concat, ite_self, Nat.add_zero]
    have hpresent : present (xs ++ [(x, 0)]) = present xs := by
      rw [present_concat, if_pos rfl, List.append_nil]
    refine ⟨hxs.binning, ?_, ?_, ?_, ?_, ?_, ?_, ?_⟩ <;>
      simp only [htotal, hpresent, total_concat, Nat.add_zero]
    exacts [hxs.weight, hxs.samples, hxs.sum_bins, hxs.underflow, hxs.overflow,
      hxs.extremes_eq_none, hxs.extremes_eq_some]
  · have hpresent : present (xs ++ [(x, w)]) = present xs ++ [x] := by
      rw [present_concat, if_neg hw]
    have hspans := Extremes.spans_widen hxs.extremes_eq_none.1 hxs.extremes_eq_some x
    have hweight (bin : Nat) : (h.bins.add (Binning.binOf b x) w).weight bin =
        h.bins.weight bin + if Binning.binOf b x = bin then w else 0 := by
      simp only [Tally.weight_add, eq_comm]
    simp only [Histogram.addWeighted, if_neg hw, hxs.binning]
    refine ⟨rfl, fun bin => ?_, ?_, ?_, ?_, ?_, ?_, ?_⟩
    · rw [hweight, hxs.weight, totalWhere_concat]
      simp only [decide_eq_true_eq]
    · rw [total_concat, hxs.samples]
    · simp only [hweight, Finset.sum_add_distrib, hxs.sum_bins, Finset.sum_ite_eq,
        Finset.mem_range, Binning.binOf_lt_size, if_true, total_concat]
    · rw [totalWhere_concat, hxs.underflow]
      simp only [decide_eq_true_eq]
      split_ifs <;> rfl
    · rw [totalWhere_concat, hxs.overflow]
      simp only [decide_eq_true_eq]
      split_ifs <;> rfl
    · simp [hpresent]
    · intro e he
      cases he
      rw [hpresent]
      exact hspans

theorem counts_ofSamples [LawfulBinning B] (b : B) (xs : List (T × Nat)) :
    Counts b xs (ofSamples b xs) := by
  induction xs using List.reverseRecOn with
  | nil => exact counts_empty b
  | append_singleton xs x ih =>
    rw [ofSamples, List.foldl_append]
    exact ih.addWeighted x.1 x.2

/-- What a histogram holds depends on the multiset of its samples alone: not on their order, not
on how the weights are split, and not on how they were put together. Histograms of different bins
are not merged, and the one that was to take in the other stays as it is. -/
structure CountsMultiset (b : B) [BEq B] : Prop where
  counts : ∀ xs, Counts b xs (ofSamples b xs)
  perm : ∀ xs ys : List (T × Nat), xs.Perm ys → ofSamples b xs = ofSamples b ys
  split : ∀ (xs ys : List (T × Nat)) (x : T) (w : Nat),
    ofSamples b (xs ++ (x, w) :: ys) = ofSamples b (xs ++ List.replicate w (x, 1) ++ ys)
  merge : ∀ xs ys : List (T × Nat),
    (ofSamples b xs).merge (ofSamples b ys) = .ok (ofSamples b (xs ++ ys)) ∧
      (ofSamples b ys).merge (ofSamples b xs) = .ok (ofSamples b (xs ++ ys))
  inPlace : ∀ h h' : Histogram B T,
    h.mergeInPlace h' = settle h ((h.merge h').map fun both => (both, ()))
  mismatch : ∀ b' ≠ b, ∀ xs ys : List (T × Nat),
    (ofSamples b xs).merge (ofSamples b' ys) = .error .differentBinning ∧
      (ofSamples b xs).mergeInPlace (ofSamples b' ys) = (ofSamples b xs, .error .differentBinning)

theorem countsMultiset_of_lawful [LawfulBinning B] [BEq B] [LawfulBEq B] (b : B) :
    CountsMultiset b where
  counts := counts_ofSamples b
  perm xs ys h := ofSamples_perm b (h.flatMap_right _)
  split xs ys x w := ofSamples_perm b <| by
    have hone : copies (List.replicate w (x, 1)) = copies [(x, w)] := copies_replicate_one x w
    rw [← List.singleton_append, ← List.append_assoc]
    simp only [copies_append, hone]
    exact .refl _
  merge xs ys := by
    refine ⟨merge_ofSamples b xs ys, ?_⟩
    rw [merge_ofSamples, ofSamples_perm b (List.perm_append_comm.flatMap_right _)]
  inPlace := mergeInPlace_eq
  mismatch b' hb xs ys := by
    have hne : ¬ (ofSamples b xs).binning == (ofSamples b' ys).binning := by
      rw [binning_ofSamples, binning_ofSamples, beq_iff_eq]
      exact hb.symm
    have hmerge : (ofSamples b xs).merge (ofSamples b' ys) = .error .differentBinning := by
      rw [Histogram.merge, if_neg hne]
    exact ⟨hmerge, by rw [mergeInPlace_eq, hmerge]; rfl⟩

end Fill

/-- Integers of any width, in a range or between cuts, and the bins that a configuration can
choose. -/
theorem countsMultiset {T : Type} [IntegerSample T] [DecidableEq T] [LT T] [DecidableLT T] [LE T]
    [Std.IsLinearOrder T] [Std.LawfulOrderLT T] :
    (∀ range : IntegerRange T, CountsMultiset range) ∧ (∀ cuts : Cuts T, CountsMultiset cuts) ∧
      ∀ chosen : ChosenBinning, CountsMultiset chosen :=
  ⟨countsMultiset_of_lawful, countsMultiset_of_lawful, countsMultiset_of_lawful⟩

/-- Cuts below and above zero, with a sample below them, one at the last, and one of no weight.
Other cuts are not merged with them. -/
theorem countsMultiset_signedCuts : ∃ cuts other : Cuts Int32,
    Cuts.make [-5, 0, 7] = .ok cuts ∧ Cuts.make [0, 7] = .ok other ∧
    (ofSamples cuts [(-9, 2), (-5, 0)]).merge (ofSamples cuts [(3, 1), (7, 4)]) =
      .ok (ofSamples cuts [(-9, 2), (-5, 0), (3, 1), (7, 4)]) ∧
    (ofSamples cuts [(-9, 2), (-5, 0), (3, 1), (7, 4)]).underflow = 2 ∧
    (ofSamples cuts [(-9, 2)]).mergeInPlace (ofSamples other [(3, 1)]) =
      (ofSamples cuts [(-9, 2)], .error .differentBinning) := by
  refine ⟨_, _, rfl, rfl, ((countsMultiset.2.1 _).merge _ _).1,
    ((countsMultiset.2.1 _).counts [(-9, 2), (-5, 0), (3, 1), (7, 4)]).underflow,
    ((countsMultiset.2.1 _).mismatch _ ?_ _ _).2⟩
  intro hsame
  cases hsame

end Histogram
end TopOfBook
