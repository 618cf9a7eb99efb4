import TopOfBook.Proofs.Doubles
import TopOfBook.Proofs.Quantiles
import TopOfBook.Rate.Distribution

/-! Whatever the arithmetic of the estimates, a histogram with samples answers for every share
with a sample between its extremes, and looks up no bin that the binning does not have. A
histogram without samples has no extremes either, and that is what is said instead; a share
outside of zero to one is refused before either. -/

namespace TopOfBook

/-! ### Shares -/

/-- A share lies between none and all. What does not compare with these is no share. -/
def IsShare {R : Type} [Scalar R] (q : R) : Prop :=
  Scalar.atMost (Scalar.ofCount 0) q = true ∧ Scalar.atMost q (Scalar.ofCount 1) = true

/-- The shares among doubles are the numbers from zero to one. -/
theorem isShare_double_iff (q : Float) :
    IsShare q ↔ ∃ x, Double.value? q = some x ∧ 0 ≤ x ∧ x ≤ 1 := by
  have hmost (a b : Float) : Scalar.atMost a b = true ↔ a ≤ b := decide_eq_true_iff
  rw [IsShare, hmost, hmost, Double.le_iff, Double.le_iff, Double.value?_zero, Double.value?_one]
  cases Double.value? q <;> simp

theorem not_isShare_double_iff (q : Float) :
    ¬ IsShare q ↔ q.isNaN = true ∨ ∃ x, Double.value? q = some x ∧ (x < 0 ∨ 1 < x) := by
  rw [isShare_double_iff, ← Double.value?_eq_none_iff]
  cases Double.value? q with
  | none => simp
  | some x => simp [or_iff_not_imp_left]

/-! ### Bins that have ends -/

/-- Every bin of the binning has its two ends. -/
class RangedBinning (B : Type) {T : outParam Type} [Binning B T] : Prop where
  exists_range : ∀ (b : B) (i : Nat), i < Binning.size b →
    ∃ low high, Binning.range? b i = some (low, high)

instance {T : Type} [IntegerSample T] : RangedBinning (IntegerRange T) where
  exists_range r i _ := ⟨_, _, r.range?_eq i⟩

instance {T : Type} [LT T] [DecidableLT T] : RangedBinning (Cuts T) where
  exists_range c i hi := by
    change i < c.points.length - 1 at hi
    exact ⟨_, _, c.range?_eq (by omega)⟩

instance : RangedBinning ChosenBinning where
  exists_range
    | .integerRange r, i, hi => RangedBinning.exists_range r i hi
    | .explicitCuts c, i, hi => RangedBinning.exists_range c i hi

namespace Histogram

/-! ### What samples, merges and resets lead to -/

section Attainable

variable {B T : Type} [Binning B T] [BEq B] [LT T] [DecidableLT T]

/-- What a histogram holds after a merge in place, also after one that was refused. -/
def absorb (a b : Histogram B T) : Histogram B T := (a.mergeInPlace b).1

omit [Binning B T] in
/-- It holds the samples of both, or its own where the other has different bins. -/
theorem absorb_eq (a b : Histogram B T) : a.absorb b = (a.merge b).toOption.getD a := by
  rw [absorb, mergeInPlace_eq, fst_settle]
  cases a.merge b <;> rfl

/-- The histograms that samples, merges and resets lead to, in any order. -/
inductive Attainable : Histogram B T → Prop
  | empty (b : B) : Attainable (empty b)
  | weighted {h : Histogram B T} (x : T) (weight : Nat) : Attainable h →
    Attainable (h.addWeighted x weight)
  | single {h : Histogram B T} (x : T) : Attainable h → Attainable (h.add x)
  | merge {a b : Histogram B T} : Attainable a → Attainable b → Attainable (a.absorb b)
  | reset {h : Histogram B T} : Attainable h → Attainable h.reset

/-- A reset or a refused merge leads to nothing that samples and merges alone do not. -/
theorem Attainable.reached {h : Histogram B T} (ha : h.Attainable) : h.Reached := by
  induction ha with
  | empty b => exact .empty b
  | weighted x weight _ ih => exact .sample x weight ih
  | single x _ ih => exact .sample x 1 ih
  | @merge a b _ _ iha ihb =>
    rw [absorb_eq]
    cases hmerge : a.merge b with
    | ok both => exact .merge iha ihb hmerge
    | error fault => exact iha
  | reset _ _ => exact .empty _

end Attainable

/-! ### Answers -/

section Answers

variable {B T R : Type} [Binning B T] [LT T] [DecidableLT T] [Scalar R] [Measured T R]
  {h : Histogram B T} {q : R}

theorem quantile_of_not_isShare (hq : ¬ IsShare q) :
    h.quantile q = .error (.percentileOutOfRange (q * Scalar.ofCount 100)) := by
  rw [quantile, if_neg]
  rwa [Bool.and_eq_true]

theorem quantile_of_extremes_eq_none (hq : IsShare q) (he : h.extremes = none) :
    h.quantile q = .error .emptyHistogram := by
  have hnone : h.quantile? q = none := by rw [quantile?, he]
  rw [quantile, if_pos (by rwa [Bool.and_eq_true]), hnone]

/-- The estimate is held to the extremes, or the largest sample stands in for it. -/
theorem exists_quantile_of_extremes [LE T] [Std.IsLinearOrder T] [Std.LawfulOrderLT T]
    {e : Extremes T} (hq : IsShare q) (he : h.extremes = some e)
    (horder : e.smallest ≤ e.largest) :
    ∃ x, h.quantile q = .ok x ∧ e.smallest ≤ x ∧ x ≤ e.largest := by
  have hsome : h.quantile? q = some ((h.rawQuantile? q).elim e.largest e.clamp) := by
    rw [quantile?, he]
  refine ⟨(h.rawQuantile? q).elim e.largest e.clamp, ?_, ?_⟩
  · rw [quantile, if_pos (by rwa [Bool.and_eq_true]), hsome]
  · cases h.rawQuantile? q with
    | none => exact ⟨horder, Std.le_refl _⟩
    | some x => exact ⟨Extremes.smallest_le_clamp horder x, Extremes.clamp_le_largest horder x⟩

end Answers

/-- What is answered for a share, in any arithmetic: a sample between the extremes, unless there
are no samples; and what is not a share is refused in any case. The bin that the scan stops at is
one of the binning. -/
structure QuantilesWithin {B T : Type} [Binning B T] [LE T] [LT T] [DecidableLT T]
    (h : Histogram B T) : Prop where
  refused : ∀ {R : Type} [Scalar R] [Measured T R] (q p : R),
    h.quantile q = .error (.percentileOutOfRange p) ↔ ¬ IsShare q ∧ p = q * Scalar.ofCount 100
  empty : ∀ {R : Type} [Scalar R] [Measured T R] (q : R),
    h.quantile q = .error .emptyHistogram ↔ IsShare q ∧ h.samples = 0
  within : ∀ {R : Type} [Scalar R] [Measured T R] (q : R), IsShare q → h.samples ≠ 0 →
    ∃ e x, h.extremes = some e ∧ h.quantile q = .ok x ∧ e.smallest ≤ x ∧ x ≤ e.largest
  scanned : ∀ {R : Type} [Scalar R] (q : R) (s : BinShare),
    findBin (Scalar.ofCount h.samples) q 0 h.bins.toList = some s →
      s.bin < Binning.size h.binning ∧ ∃ low high, Binning.range? h.binning s.bin = some (low, high)

section Within

variable {B T R : Type} [Binning B T] [LawfulBinning B] [LE T] [LT T] [DecidableLT T]
  [Std.IsLinearOrder T] [Std.LawfulOrderLT T] [Scalar R] [Measured T R] {q : R}

/-- There is no third case, because there are extremes exactly where there are samples. -/
theorem quantile_cases (b : B) (xs : List (T × Nat)) (hq : IsShare q) :
    ((ofSamples b xs).samples = 0 ∧ (ofSamples b xs).quantile q = .error .emptyHistogram) ∨
      ((ofSamples b xs).samples ≠ 0 ∧ ∃ e x, (ofSamples b xs).extremes = some e ∧
        (ofSamples b xs).quantile q = .ok x ∧ e.smallest ≤ x ∧ x ≤ e.largest) := by
  by_cases hzero : (ofSamples b xs).samples = 0
  · have hnone := extremes_eq_none_iff.2 hzero
    exact .inl ⟨hzero, quantile_of_extremes_eq_none hq hnone⟩
  · obtain ⟨e, he, horder⟩ := (settled_ofSamples b xs).extremes hzero
    obtain ⟨x, hx, hle⟩ := exists_quantile_of_extremes hq he horder
    exact .inr ⟨hzero, e, x, he, hx, hle⟩

theorem Reached.quantilesWithin [RangedBinning B] [BEq B] [LawfulBEq B] {h : Histogram B T}
    (hr : h.Reached) : h.QuantilesWithin := by
  obtain ⟨b, xs, rfl⟩ := hr.eq_ofSamples
  refine ⟨fun q p => ?_, fun q => ?_, fun q hq hne => ?_, fun q s hfind => ?_⟩
  · by_cases hq : IsShare q
    · rcases quantile_cases b xs hq with ⟨-, hempty⟩ | ⟨-, e, x, -, hx, -⟩
      · simp [hempty, hq]
      · simp [hx, hq]
    · simp [quantile_of_not_isShare hq, hq, eq_comm]
  · by_cases hq : IsShare q
    · rcases quantile_cases b xs hq with ⟨hzero, hempty⟩ | ⟨hne, e, x, -, hx, -⟩
      · simp [hempty, hq, hzero]
      · simp [hx, hne]
    · simp [quantile_of_not_isShare hq, hq]
  · rcases quantile_cases b xs hq with ⟨hzero, -⟩ | ⟨-, hanswer⟩
    · exact absurd hzero hne
    · exact hanswer
  · have hlt := lt_size_of_mem (mem_of_findBin hfind)
    rw [binning_ofSamples]
    exact ⟨hlt, RangedBinning.exists_range b s.bin hlt⟩

end Within

/-- Every histogram that can come about over a range of integers or over cuts. -/
structure AllQuantilesWithin (T : Type) [IntegerSample T] [DecidableEq T] [LE T] [LT T]
    [DecidableLT T] : Prop where
  ranges : ∀ h : Histogram (IntegerRange T) T, h.Attainable → h.QuantilesWithin
  cuts : ∀ h : Histogram (Cuts T) T, h.Attainable → h.QuantilesWithin

theorem allQuantilesWithin {T : Type} [IntegerSample T] [DecidableEq T] [LE T] [LT T]
    [DecidableLT T] [Std.IsLinearOrder T] [Std.LawfulOrderLT T] : AllQuantilesWithin T where
  ranges _ ha := ha.reached.quantilesWithin
  cuts _ ha := ha.reached.quantilesWithin

/-- In doubles, what is refused is no number at all, or one below zero or above one. -/
theorem quantiles_within_extremes : AllQuantilesWithin UInt32 ∧ AllQuantilesWithin UInt64 ∧
    AllQuantilesWithin Int32 ∧ AllQuantilesWithin Int64 ∧
    (∀ h : Histogram ChosenBinning UInt64, h.Attainable → h.QuantilesWithin) ∧
    (∀ h : CountHistogram, h.Attainable → h.QuantilesWithin) ∧
    ∀ q : Float, ¬ IsShare q ↔
      q.isNaN = true ∨ ∃ x, Double.value? q = some x ∧ (x < 0 ∨ 1 < x) := by
  refine ⟨allQuantilesWithin, allQuantilesWithin, allQuantilesWithin, allQuantilesWithin,
    fun _ ha => ?_, fun _ ha => ?_, not_isShare_double_iff⟩
  · exact ha.reached.quantilesWithin
  · exact ha.reached.quantilesWithin

/-- Half of the samples, one of them below all cuts. Other cuts were refused on the way. Exactly
half of them are reached where the first bin ends, and a quarter in the middle of that bin. -/
theorem quantiles_within_extremes_refusedMerge : ∃ cuts other : Cuts Int32,
    Cuts.make [-5, 0, 7] = .ok cuts ∧ Cuts.make [1, 2] = .ok other ∧
      let h := (((empty cuts).addWeighted (-9) 1).addWeighted 3 1).absorb ((empty other).add 1)
      h.samples = 2 ∧ (∃ x, h.quantile (0.5 : Float) = .ok x ∧ -9 ≤ x ∧ x ≤ 3) ∧
        (∃ x, h.quantile (1 / 2 : ℚ) = .ok x ∧ -9 ≤ x ∧ x ≤ 3 ∧ x = 0) ∧
        ∃ x, h.quantile (1 / 4 : ℚ) = .ok x ∧ -9 ≤ x ∧ x ≤ 3 ∧ x = -3 := by
  refine ⟨_, _, rfl, rfl, ?_⟩
  intro h
  have ha : h.Attainable :=
    .merge (.weighted 3 1 (.weighted (-9) 1 (.empty _))) (.single 1 (.empty _))
  have hwithin := quantiles_within_extremes.2.2.1.cuts h ha
  have hexactly {q : ℚ} {y : Int32} (hq : IsShare q) (hy : (h.quantile q).toOption = some y) :
      ∃ x, h.quantile q = .ok x ∧ -9 ≤ x ∧ x ≤ 3 ∧ x = y := by
    obtain ⟨e, x, he, hx, hlow, hhigh⟩ := hwithin.within q hq (by decide)
    cases he
    rw [hx] at hy
    exact ⟨x, hx, hlow, hhigh, Option.some.inj hy⟩
  -- the floor of a double is not computed here, so the estimates are pinned for exact shares
  refine ⟨rfl, ?_, hexactly ?_ (by decide +kernel), hexactly ?_ (by decide +kernel)⟩
  · have hhalf : IsShare (0.5 : Float) := ⟨by decide +kernel, by decide +kernel⟩
    obtain ⟨e, x, he, hx, hle⟩ := hwithin.within 0.5 hhalf (by decide)
    cases he
    exact ⟨x, hx, hle⟩
  · exact ⟨by decide +kernel, by decide +kernel⟩
  · exact ⟨by decide +kernel, by decide +kernel⟩

end Histogram
end TopOfBook
