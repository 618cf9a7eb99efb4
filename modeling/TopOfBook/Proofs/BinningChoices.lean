import Mathlib.Algebra.Ring.Nat
import TopOfBook.Proofs.Construction
import TopOfBook.Proofs.Partitions

/-! The check of a binning in a configuration and the construction of it find the same fault, each
with the search that it has of its own. Only the number of values of a range is left to the
construction. -/

namespace TopOfBook

open IntegerSample

/-! ### What is built -/

namespace ChosenBinning

/-- The choice that a binning stands for. -/
def choice : ChosenBinning → BinningChoice
  | integerRange r => .integerRange r.first r.last
  | explicitCuts c => .explicitCuts c.points

theorem choice_inj {b b' : ChosenBinning} : b.choice = b'.choice ↔ b = b' := by
  refine ⟨fun h => ?_, congrArg choice⟩
  rcases b with ⟨first, last, _⟩ | ⟨points, _, _⟩ <;>
    rcases b' with ⟨first', last', _⟩ | ⟨points', _, _⟩ <;> cases h <;> rfl

end ChosenBinning

theorem Cuts.make_eq_error {cuts : List UInt64} {position : Nat} (htwo : 2 ≤ cuts.length)
    (h : firstDisorder 1 cuts = some position) :
    Cuts.make cuts = .error (.unsortedCuts position) := by
  unfold Cuts.make
  rw [dif_neg (Nat.not_lt.2 htwo)]
  split
  · cases h.symm.trans ‹_›
    rfl
  · cases h.symm.trans ‹_›

/-! ### Check and construction -/

namespace BinningChoice

/-- What is said of a choice where it is checked and what comes of it where it is built. -/
inductive Verdict :
    BinningChoice → Except ConfigFault Unit → Except BinningFault ChosenBinning → Prop
  | inverted {min max : UInt64} : max < min → Verdict (.integerRange min max)
      (.error (.invertedRange min max)) (.error (.invertedRange (toInt min) (toInt max)))
  | tooMany {min max : UInt64} : min ≤ max → 2 ^ 24 < max.toNat - min.toNat + 1 →
      Verdict (.integerRange min max) (.ok ())
        (.error (.tooManyBins (max.toNat - min.toNat + 1) (2 ^ 24)))
  | range (r : IntegerRange UInt64) : Binning.size r ≤ 2 ^ 24 →
      Verdict (.integerRange r.first r.last) (.ok ()) (.ok (.integerRange r))
  | tooFew {cuts : List UInt64} : cuts.length < 2 → Verdict (.explicitCuts cuts)
      (.error (.tooFewCuts cuts.length)) (.error (.tooFewCuts cuts.length))
  | unsorted {cuts : List UInt64} {i : Nat} {previous next : UInt64} :
      Disorder cuts i previous next → Verdict (.explicitCuts cuts)
        (.error (.unsortedCuts previous next)) (.error (.unsortedCuts (i + 1)))
  | cuts (c : Cuts UInt64) : Verdict (.explicitCuts c.points) (.ok ()) (.ok (.explicitCuts c))

theorem verdict_range (min max : UInt64) : Verdict (.integerRange min max)
    (validate (.integerRange min max)) (ChosenBinning.ofChoice (.integerRange min max)) := by
  have hint : max < min ↔ toInt max < toInt min := BoundedSample.lt_iff max min
  by_cases hlt : max < min
  · rw [validate, if_pos hlt, ChosenBinning.ofChoice, IntegerRange.make, dif_pos (hint.1 hlt)]
    exact .inverted hlt
  · have hle := UInt64.not_lt.1 hlt
    have hcount := IntegerRange.count_words hle
    rw [validate, if_neg hlt, ChosenBinning.ofChoice, IntegerRange.make, dif_neg (mt hint.2 hlt)]
    by_cases hsize : IntegerRange.maxBins < IntegerRange.count min max
    · rw [if_pos hsize, hcount]
      exact .tooMany hle (hcount ▸ hsize)
    · rw [if_neg hsize]
      exact .range ⟨min, max, _⟩ (Nat.not_lt.1 hsize)

theorem verdict_cuts (cuts : List UInt64) : Verdict (.explicitCuts cuts)
    (validate (.explicitCuts cuts)) (ChosenBinning.ofChoice (.explicitCuts cuts)) := by
  rw [validate, ChosenBinning.ofChoice]
  by_cases hshort : cuts.length < 2
  · rw [if_pos hshort, Cuts.make, dif_pos hshort]
    exact .tooFew hshort
  · rw [if_neg hshort]
    rcases searches_agree 1 cuts with ⟨-, hsorted⟩ | ⟨i, previous, next, hd, hunsorted, h⟩
    · obtain ⟨c, hc⟩ := Cuts.make_eq_ok (Nat.not_lt.1 hshort) hsorted
      obtain rfl := Cuts.points_of_make hc
      rw [hsorted, hc]
      exact .cuts c
    · rw [hunsorted, Cuts.make_eq_error (Nat.not_lt.1 hshort) hd, Nat.add_comm]
      exact .unsorted h

theorem verdict (c : BinningChoice) : Verdict c c.validate (ChosenBinning.ofChoice c) := by
  cases c with
  | integerRange min max => exact verdict_range min max
  | explicitCuts cuts => exact verdict_cuts cuts

/-- What is built has the bins that were chosen. -/
theorem Verdict.choice_eq {c : BinningChoice} {checked : Except ConfigFault Unit}
    {b : ChosenBinning} (h : Verdict c checked (.ok b)) : b.choice = c := by
  cases h <;> rfl

/-- Both name the same fault of a choice, with the same values; the neighbours out of order are
those at the position that the construction names, and no earlier ones are. A choice that passes
the check is built unless it is a range of too many values. What is built has the bins that were
chosen, and at least one. -/
structure Agrees (c : BinningChoice) (checked : Except ConfigFault Unit)
    (built : Except BinningFault ChosenBinning) : Prop where
  inverted : ∀ low high, built = .error (.invertedRange low high) ↔
    ∃ min max, low = toInt min ∧ high = toInt max ∧ checked = .error (.invertedRange min max)
  tooFew : ∀ count, built = .error (.tooFewCuts count) ↔ checked = .error (.tooFewCuts count)
  unsorted : (∃ position, built = .error (.unsortedCuts position)) ↔
    ∃ previous next, checked = .error (.unsortedCuts previous next)
  neighbours : ∀ position previous next, built = .error (.unsortedCuts position) →
    checked = .error (.unsortedCuts previous next) →
    ∃ cuts i, c = .explicitCuts cuts ∧ position = i + 1 ∧ Disorder cuts i previous next
  tooMany : ∀ bins limit, built = .error (.tooManyBins bins limit) ↔
    checked = .ok () ∧ c.rangeSize? = some bins ∧ limit = 2 ^ 24 ∧ limit < bins
  rangeSize_le : ∀ bins, c.rangeSize? = some bins → bins ≤ 2 ^ 64
  valid : checked = .ok () → ∀ fault, built = .error fault →
    ∃ bins, fault = .tooManyBins bins (2 ^ 24)
  bins : ∀ b, built = .ok b → checked = .ok () ∧ b.choice = c ∧ 0 < Binning.size b ∧
    ∀ cuts, c = .explicitCuts cuts → cuts.Pairwise (· < ·)

theorem size_range (r : IntegerRange UInt64) :
    Binning.size r = r.last.toNat - r.first.toNat + 1 :=
  IntegerRange.count_words ((BoundedSample.le_iff _ _).2 r.ordered)

theorem rangeSize_le {c : BinningChoice} {bins : Nat} (h : c.rangeSize? = some bins) :
    bins ≤ 2 ^ 64 := by
  cases c with
  | integerRange min max =>
    cases h
    have := max.toNat_lt
    omega
  | explicitCuts cuts => cases h

theorem Verdict.agrees {c : BinningChoice} {checked : Except ConfigFault Unit}
    {built : Except BinningFault ChosenBinning} (h : Verdict c checked built) :
    c.Agrees checked built := by
  refine ⟨fun low high => ?_, fun count => ?_, ?_, fun position previous next hbuilt hchecked => ?_,
    fun bins limit => ?_, fun bins => rangeSize_le, fun hvalid fault hbuilt => ?_, fun b hb => ?_⟩
  · cases h <;> simp [eq_comm]
  · cases h <;> simp
  · cases h <;> simp
  · cases h <;> cases hbuilt
    cases hchecked
    exact ⟨_, _, rfl, rfl, ‹_›⟩
  · cases h with
    | tooMany _ hsize =>
      constructor
      · rintro ⟨⟩
        exact ⟨rfl, rfl, rfl, hsize⟩
      · rintro ⟨-, ⟨⟩, rfl, -⟩
        rfl
    | range r hsize =>
      refine iff_of_false (by rintro ⟨⟩) ?_
      rintro ⟨-, ⟨⟩, rfl, hmany⟩
      exact hsize.not_gt ((size_range r).symm ▸ hmany)
    | _ => simp [rangeSize?]
  · cases h <;> cases hvalid <;> cases hbuilt
    exact ⟨_, rfl⟩
  · subst hb
    refine ⟨?_, h.choice_eq, LawfulBinning.size_pos b, ?_⟩
    · cases h <;> rfl
    · rintro _ rfl
      cases h
      exact Ascending.pairwise (Cuts.ascending _)

/-- For every choice there is one verdict, where it is checked and where it is built. -/
theorem validate_agrees_ofChoice (c : BinningChoice) :
    c.Agrees c.validate (ChosenBinning.ofChoice c) :=
  c.verdict.agrees

/-- A bin for every word would be too many, and there are `2 ^ 64` of them. -/
example : validate (.integerRange 0 0xFFFFFFFFFFFFFFFF) = .ok () ∧
    ChosenBinning.ofChoice (.integerRange 0 0xFFFFFFFFFFFFFFFF) =
      .error (.tooManyBins 0x10000000000000000 0x1000000) :=
  ⟨rfl, rfl⟩

end BinningChoice
end TopOfBook
