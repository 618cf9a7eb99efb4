import Mathlib.Data.List.TakeWhile
import Mathlib.Tactic.Common
import TopOfBook.Binning.Chosen

/-! Every sample has its place: the bin in which a binning counts a sample is one of its bins.
Two binnings compare as the same exactly when they are equal. -/

namespace TopOfBook

/-- There is a bin at least, and no sample is located in a bin beyond the last. -/
class LawfulBinning (B : Type) {T : outParam Type} [Binning B T] : Prop where
  size_pos : ∀ b : B, 0 < Binning.size b
  lt_size_of_locate : ∀ {b : B} {x : T} {i : Nat},
    Binning.locate b x = .bin i → i < Binning.size b

theorem Binning.binOf_lt_size {B T : Type} [Binning B T] [LawfulBinning B] (b : B) (x : T) :
    Binning.binOf b x < Binning.size b := by
  have hpos := LawfulBinning.size_pos b
  rw [Binning.binOf]
  split
  · exact hpos
  · exact LawfulBinning.lt_size_of_locate ‹_›
  · exact Nat.sub_lt hpos Nat.one_pos

namespace IntegerRange

variable {T : Type} [IntegerSample T]

instance : LawfulBinning (IntegerRange T) where
  size_pos r := by
    have := r.ordered
    change 0 < count r.first r.last
    rw [count]
    omega
  lt_size_of_locate {r x i} hx := by
    change locate r x = .bin i at hx
    change i < count r.first r.last
    rw [locate] at hx
    split_ifs at hx with hlow hhigh
    cases hx
    rw [count]
    omega

end IntegerRange

namespace Cuts

variable {T : Type} [LT T] [DecidableLT T]

/-- The search for the bin of a sample below the last cut stops before that cut. -/
theorem length_takeWhile_lt (c : Cuts T) {x : T} (hx : x < c.last) :
    (c.points.takeWhile fun p => ¬ x < p).length < c.points.length := by
  have hfront := List.takeWhile_prefix (l := c.points) fun p => decide ¬ x < p
  refine Nat.lt_of_le_of_ne hfront.length_le fun heq => ?_
  have hlast : c.last ∈ c.points.takeWhile fun p => ¬ x < p := by
    rw [hfront.eq_of_length heq]
    exact List.getLast_mem _
  have hnot := List.mem_takeWhile_imp hlast
  rw [decide_eq_true_eq] at hnot
  exact hnot hx

instance : LawfulBinning (Cuts T) where
  size_pos c := Nat.sub_pos_of_lt c.twoPoints
  lt_size_of_locate {c x i} hx := by
    have htwo := c.twoPoints
    change locate c x = .bin i at hx
    change i < c.points.length - 1
    rw [locate] at hx
    split_ifs at hx with hlow hhigh
    have := c.length_takeWhile_lt hhigh
    cases hx
    omega

instance [BEq T] [LawfulBEq T] : LawfulBEq (Cuts T) where
  rfl {c} := beq_self_eq_true c.points
  eq_of_beq {a b} h := by
    cases a
    cases b
    cases eq_of_beq (α := List T) h
    rfl

end Cuts

namespace ChosenBinning

instance : LawfulBinning ChosenBinning where
  size_pos
    | integerRange r => LawfulBinning.size_pos r
    | explicitCuts c => LawfulBinning.size_pos c
  lt_size_of_locate {b x i} hx := by
    cases b with
    | integerRange r => exact LawfulBinning.lt_size_of_locate (b := r) hx
    | explicitCuts c => exact LawfulBinning.lt_size_of_locate (b := c) hx

instance : LawfulBEq ChosenBinning where
  rfl {b} := by
    cases b with
    | integerRange r => exact beq_self_eq_true r
    | explicitCuts c => exact beq_self_eq_true c
  eq_of_beq {a b} h := by
    cases a with
    | integerRange r =>
      cases b with
      | integerRange s => exact congrArg integerRange (eq_of_beq (show (r == s) = true from h))
      | explicitCuts c => cases h
    | explicitCuts c =>
      cases b with
      | integerRange r => cases h
      | explicitCuts d => exact congrArg explicitCuts (eq_of_beq (show (c == d) = true from h))

end ChosenBinning
end TopOfBook
