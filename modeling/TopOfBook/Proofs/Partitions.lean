import TopOfBook.Proofs.Placements

/-! The bins of a binning lie side by side on the line of samples. A sample lies in exactly one of
them, or before the first, or beyond the last; the bin in which it is counted rises with the
sample. -/

namespace TopOfBook

/-- Integers of some width, ordered as the integers they stand for. The nearest one to an integer
is the integer itself between the smallest and the largest of them. -/
class BoundedSample (T : Type) [IntegerSample T] [LE T] [LT T] where
  least : Int
  greatest : Int
  least_le : ∀ x : T, least ≤ IntegerSample.toInt x
  le_greatest : ∀ x : T, IntegerSample.toInt x ≤ greatest
  toInt_ofInt : ∀ i, IntegerSample.toInt (IntegerSample.ofInt i : T) = max least (min i greatest)
  toInt_inj : ∀ x y : T, IntegerSample.toInt x = IntegerSample.toInt y → x = y
  le_iff : ∀ x y : T, x ≤ y ↔ IntegerSample.toInt x ≤ IntegerSample.toInt y
  lt_iff : ∀ x y : T, x < y ↔ IntegerSample.toInt x < IntegerSample.toInt y

namespace BoundedSample

instance : BoundedSample UInt32 where
  least := 0
  greatest := UInt32.size - 1
  least_le x := by simp only [IntegerSample.toInt]; omega
  le_greatest x := by
    have := x.toNat_lt_size
    simp only [IntegerSample.toInt, UInt32.size] at *
    omega
  toInt_ofInt i := by
    simp only [IntegerSample.toInt, IntegerSample.ofInt, Nat.toUInt32_eq, UInt32.size]
    rw [UInt32.toNat_ofNat_of_lt' (by rw [UInt32.size]; omega)]
    omega
  toInt_inj x y h := UInt32.toNat_inj.1 (Int.ofNat_inj.1 h)
  le_iff x y := by simp only [IntegerSample.toInt, UInt32.le_iff_toNat_le]; omega
  lt_iff x y := by simp only [IntegerSample.toInt, UInt32.lt_iff_toNat_lt]; omega

instance : BoundedSample UInt64 where
  least := 0
  greatest := UInt64.size - 1
  least_le x := by simp only [IntegerSample.toInt]; omega
  le_greatest x := by
    have := x.toNat_lt_size
    simp only [IntegerSample.toInt, UInt64.size] at *
    omega
  toInt_ofInt i := by
    simp only [IntegerSample.toInt, IntegerSample.ofInt, Nat.toUInt64_eq, UInt64.size]
    rw [UInt64.toNat_ofNat_of_lt' (by rw [UInt64.size]; omega)]
    omega
  toInt_inj x y h := UInt64.toNat_inj.1 (Int.ofNat_inj.1 h)
  le_iff x y := by simp only [IntegerSample.toInt, UInt64.le_iff_toNat_le]; omega
  lt_iff x y := by simp only [IntegerSample.toInt, UInt64.lt_iff_toNat_lt]; omega

instance : BoundedSample Int32 where
  least := Int32.minValue.toInt
  greatest := Int32.maxValue.toInt
  least_le x := x.le_toInt
  le_greatest x := by
    have := x.toInt_lt
    simp only [IntegerSample.toInt, Int32.toInt_maxValue]
    omega
  toInt_ofInt i := by
    simp only [IntegerSample.toInt, IntegerSample.ofInt, Int32.toInt_minValue,
      Int32.toInt_maxValue]
    rw [Int32.toInt_ofInt_of_le (by omega) (by omega)]
  toInt_inj x y h := Int32.toInt_inj.1 h
  le_iff x y := Int32.le_iff_toInt_le
  lt_iff x y := Int32.lt_iff_toInt_lt

instance : BoundedSample Int64 where
  least := Int64.minValue.toInt
  greatest := Int64.maxValue.toInt
  least_le x := x.le_toInt
  le_greatest x := by
    have := x.toInt_lt
    simp only [IntegerSample.toInt, Int64.toInt_maxValue]
    omega
  toInt_ofInt i := by
    simp only [IntegerSample.toInt, IntegerSample.ofInt, Int64.toInt_minValue,
      Int64.toInt_maxValue]
    rw [Int64.toInt_ofInt_of_le (by omega) (by omega)]
  toInt_inj x y h := Int64.toInt_inj.1 h
  le_iff x y := Int64.le_iff_toInt_le
  lt_iff x y := Int64.lt_iff_toInt_lt

open IntegerSample

variable {T : Type} [IntegerSample T] [LE T] [LT T] [BoundedSample T]

/-- From the smallest sample on, only the largest one stops the nearest sample. -/
theorem toInt_ofInt_of_le {i : Int} (h : least T ≤ i) :
    toInt (ofInt i : T) = min i (greatest T) := by
  have hpresent := Int.le_trans (least_le (ofInt 0 : T)) (le_greatest (ofInt 0 : T))
  rw [toInt_ofInt]
  exact Int.max_eq_right (Int.le_min.2 ⟨h, hpresent⟩)

end BoundedSample

/-- The bins of `b` lie side by side between what is below the lowest sample and what is `above`.
Where the last bin is `closed`, its end belongs to it. -/
structure Tiles {B T : Type} [Binning B T] [LE T] [LT T] (b : B) (above : T → Prop)
    (closed : Prop) : Prop where
  underflow : ∀ x, Binning.locate b x = .underflow ↔ x < Binning.low b
  overflow : ∀ x, Binning.locate b x = .overflow ↔ above x
  upward : ∀ x y, x ≤ y → above x → above y
  bin : ∀ x i, Binning.locate b x = .bin i ↔ i < Binning.size b ∧
    ∃ low high, Binning.range? b i = some (low, high) ∧ low ≤ x ∧
      (x < high ∨ closed ∧ i + 1 = Binning.size b ∧ x = high)
  ordered : ∀ i, i < Binning.size b →
    ∃ low high, Binning.range? b i = some (low, high) ∧ low ≤ high
  adjacent : ∀ i, i + 1 < Binning.size b → ∃ low middle high,
    Binning.range? b i = some (low, middle) ∧ Binning.range? b (i + 1) = some (middle, high)

namespace Tiles

variable {B T : Type} [Binning B T] [LE T] [LT T] [Std.IsLinearOrder T] {b : B}
  {above : T → Prop} {closed : Prop} {i j : Nat} {low high low' high' x y : T}

/-- A bin ends before a later one begins. -/
theorem high_le_low (h : Tiles b above closed) (hij : i < j) (hj : j < Binning.size b)
    (hi : Binning.range? b i = some (low, high)) (hj' : Binning.range? b j = some (low', high')) :
    high ≤ low' := by
  induction j generalizing low' high' with
  | zero => omega
  | succ j ih =>
    obtain ⟨lower, middle, upper, hlower, hupper⟩ := h.adjacent j hj
    cases hj'.symm.trans hupper
    by_cases he : i = j
    · subst he
      cases hi.symm.trans hlower
      exact Std.le_refl _
    · obtain ⟨_, _, hrange, hle⟩ := h.ordered j (by omega)
      cases hlower.symm.trans hrange
      exact Std.le_trans (ih (by omega) (by omega) hlower) hle

variable [Std.LawfulOrderLT T]

/-- A later bin holds no smaller samples. -/
theorem bin_le_bin (h : Tiles b above closed) (hxy : x ≤ y) (hx : Binning.locate b x = .bin i)
    (hy : Binning.locate b y = .bin j) : i ≤ j := by
  obtain ⟨hi, low, high, hrange, hlow, -⟩ := (h.bin x i).1 hx
  obtain ⟨hj, low', high', hrange', -, hhigh'⟩ := (h.bin y j).1 hy
  by_contra hlt
  rcases hhigh' with hhigh' | ⟨-, hend, -⟩
  · have hle := h.high_le_low (by omega) hi hrange' hrange
    exact Std.not_lt.2 (Std.le_trans hle (Std.le_trans hlow hxy)) hhigh'
  · omega

theorem binOf_le_binOf [LawfulBinning B] (h : Tiles b above closed) (hxy : x ≤ y) :
    Binning.binOf b x ≤ Binning.binOf b y := by
  have hlt := Binning.binOf_lt_size b x
  cases hy : Binning.locate b y with
  | underflow =>
    have hx := (h.underflow x).2 (Std.lt_of_le_of_lt hxy ((h.underflow y).1 hy))
    rw [Binning.binOf, hx]
    exact Nat.zero_le _
  | overflow =>
    have hlast : Binning.binOf b y = Binning.size b - 1 := by rw [Binning.binOf, hy]
    omega
  | bin j =>
    have hbin : Binning.binOf b y = j := by rw [Binning.binOf, hy]
    cases hx : Binning.locate b x with
    | underflow =>
      rw [Binning.binOf, hx]
      exact Nat.zero_le _
    | overflow =>
      have hy' := (h.overflow y).2 (h.upward x y hxy ((h.overflow x).1 hx))
      cases hy.symm.trans hy'
    | bin i =>
      rw [hbin, Binning.binOf, hx]
      exact h.bin_le_bin hxy hx hy

end Tiles

/-! ### Ranges of integers -/

namespace IntegerRange

open IntegerSample BoundedSample

variable {T : Type} [IntegerSample T]

theorem locate_eq_bin_iff {r : IntegerRange T} {x : T} {i : Nat} :
    locate r x = .bin i ↔ toInt x = toInt r.first + i ∧ toInt x ≤ toInt r.last := by
  have hordered := r.ordered
  rw [locate]
  split_ifs with hlow hhigh
  · simp only [false_iff]
    omega
  · simp only [false_iff]
    omega
  · rw [Placement.bin.injEq]
    omega

theorem range?_eq (r : IntegerRange T) (i : Nat) : Binning.range? r i =
    some (ofInt (toInt r.first + i), ofInt (toInt r.first + i + 1)) := rfl

theorem ends_of_make {first last : T} {r : IntegerRange T} (h : make first last = .ok r) :
    r.first = first ∧ r.last = last := by
  rw [make] at h
  split_ifs at h
  cases h
  exact ⟨rfl, rfl⟩

variable [LE T] [LT T] [BoundedSample T]

/-- Bins of one integer each; only the last one may end at the largest sample of all. -/
theorem tiles (r : IntegerRange T) : Tiles r (r.last < ·) (∀ x : T, x ≤ r.last) where
  underflow x := by
    change locate r x = .underflow ↔ x < r.first
    simp only [lt_iff, locate]
    split_ifs <;> simp_all
  overflow x := by
    have hordered := r.ordered
    change locate r x = .overflow ↔ r.last < x
    simp only [lt_iff, locate]
    split_ifs with hlow hhigh
    · simp only [false_iff]
      omega
    · simp only [hhigh]
    · simp only [false_iff]
      omega
  upward x y hxy := by
    rw [le_iff] at hxy
    simp only [lt_iff]
    omega
  bin x i := by
    have hordered := r.ordered
    have hleast := least_le r.first
    have hgreatest := le_greatest r.last
    have hclosed : (∀ y : T, y ≤ r.last) ↔ toInt r.last = greatest T := by
      constructor
      · intro h
        have hle := (le_iff _ _).1 (h (ofInt (greatest T)))
        rw [toInt_ofInt_of_le (by omega), Int.min_self] at hle
        omega
      · intro h y
        rw [le_iff, h]
        exact le_greatest y
    have heq (y : T) : x = y ↔ toInt x = toInt y := ⟨congrArg _, toInt_inj x y⟩
    have hlow : toInt (ofInt (toInt r.first + i) : T) = min (toInt r.first + i) (greatest T) :=
      toInt_ofInt_of_le (by omega)
    have hhigh : toInt (ofInt (toInt r.first + i + 1) : T) =
        min (toInt r.first + i + 1) (greatest T) := toInt_ofInt_of_le (by omega)
    change locate r x = .bin i ↔ i < count r.first r.last ∧ _
    simp only [locate_eq_bin_iff, range?_eq, Option.some.injEq, Prod.mk.injEq, hclosed, count,
      Binning.size]
    constructor
    · rintro ⟨hx, hle⟩
      refine ⟨by omega, _, _, ⟨rfl, rfl⟩, ?_⟩
      rw [le_iff, lt_iff, heq, hlow, hhigh]
      omega
    · rintro ⟨hi, low, high, ⟨rfl, rfl⟩, hin⟩
      rw [le_iff, lt_iff, heq, hlow, hhigh] at hin
      omega
  ordered i hi := by
    have hleast := least_le r.first
    refine ⟨_, _, rfl, ?_⟩
    rw [le_iff, toInt_ofInt_of_le (by omega), toInt_ofInt_of_le (by omega)]
    omega
  adjacent i hi := by
    have hnext : toInt r.first + ((i + 1 : Nat) : Int) = toInt r.first + i + 1 := by omega
    exact ⟨_, ofInt (toInt r.first + i + 1), ofInt (toInt r.first + i + 1 + 1), rfl,
      by rw [range?_eq, hnext]⟩

end IntegerRange

/-! ### Cuts -/

theorem Ascending.pairwise {T : Type} [LT T] [LE T] [Std.IsLinearOrder T] [Std.LawfulOrderLT T]
    {l : List T} (h : Ascending l) : l.Pairwise (· < ·) := by
  induction l with
  | nil => exact .nil
  | cons a l ih =>
    cases l with
    | nil => exact List.pairwise_singleton _ a
    | cons b rest =>
      obtain ⟨hab, hrest⟩ := h
      have hb := ih hrest
      refine List.pairwise_cons.2 ⟨fun x hx => ?_, hb⟩
      rcases List.mem_cons.1 hx with rfl | hx
      · exact hab
      · exact Std.lt_trans hab ((List.pairwise_cons.1 hb).1 x hx)

namespace Cuts

variable {T : Type} [LT T]

/-- The search for the bin of a sample stops at the first cut above it. -/
theorem length_takeWhile [DecidableLT T] (c : Cuts T) (x : T) :
    (c.points.takeWhile fun p => ¬ x < p).length = c.points.findIdx fun p => decide (x < p) := by
  rw [List.takeWhile_eq_take_findIdx_not, List.length_take]
  simp only [decide_not, Bool.not_not]
  exact Nat.min_eq_left List.findIdx_le_length

theorem range?_eq [DecidableLT T] (c : Cuts T) {i : Nat} (h : i + 1 < c.points.length) :
    Binning.range? c i = some (c.points[i], c.points[i + 1]) := by
  have hlow : c.points[i]? = some c.points[i] := List.getElem?_eq_getElem (by omega)
  have hhigh : c.points[i + 1]? = some c.points[i + 1] := List.getElem?_eq_getElem h
  simp only [Binning.range?, hlow, hhigh]

theorem points_of_make [DecidableLT T] {points : List T} {c : Cuts T}
    (h : make points = .ok c) : c.points = points := by
  unfold make at h
  split_ifs at h
  split at h <;> cases h
  rfl

variable [LE T] [Std.IsLinearOrder T] [Std.LawfulOrderLT T]

theorem points_le (c : Cuts T) {i j : Nat} (hij : i ≤ j) (hj : j < c.points.length) :
    c.points[i] ≤ c.points[j] := by
  rcases Nat.eq_or_lt_of_le hij with rfl | hlt
  · exact Std.le_refl _
  · exact Std.le_of_lt (List.pairwise_iff_getElem.1 c.ascending.pairwise i j (by omega) hj hlt)

theorem first_le (c : Cuts T) {i : Nat} (hi : i < c.points.length) : c.first ≤ c.points[i] := by
  rw [first, List.head_eq_getElem]
  exact c.points_le (Nat.zero_le i) hi

theorem le_last (c : Cuts T) {i : Nat} (hi : i < c.points.length) : c.points[i] ≤ c.last := by
  have htwo := c.twoPoints
  rw [last, List.getLast_eq_getElem]
  exact c.points_le (by omega) _

variable [DecidableLT T] {c : Cuts T} {x : T} {i : Nat}

/-- The bin of a sample lies between the last cut that it reaches and the next one. -/
theorem locate_eq_bin_iff : locate c x = .bin i ↔
    ∃ h : i + 1 < c.points.length, c.points[i] ≤ x ∧ x < c.points[i + 1] := by
  rw [locate, length_takeWhile]
  constructor
  · intro h
    split_ifs at h with hlow hhigh
    have hn : (c.points.findIdx fun p => decide (x < p)) < c.points.length :=
      List.findIdx_lt_length_of_exists ⟨c.last, List.getLast_mem _, decide_eq_true hhigh⟩
    obtain ⟨habove, hbelow⟩ := (List.findIdx_eq hn).1 rfl
    generalize (c.points.findIdx fun p => decide (x < p)) = n at h hn habove hbelow
    have hpos : n ≠ 0 := by
      rintro rfl
      rw [first, List.head_eq_getElem] at hlow
      exact hlow (of_decide_eq_true habove)
    obtain rfl : n = i + 1 := by
      rw [Placement.bin.injEq] at h
      omega
    exact ⟨hn, Std.not_lt.1 (of_decide_eq_false (hbelow i (by omega))), of_decide_eq_true habove⟩
  · rintro ⟨hi, hlow, hhigh⟩
    have hfirst := Std.le_trans (c.first_le (by omega)) hlow
    have hlast := Std.lt_of_lt_of_le hhigh (c.le_last hi)
    have hfind : (c.points.findIdx fun p => decide (x < p)) = i + 1 := by
      refine (List.findIdx_eq hi).2 ⟨decide_eq_true hhigh, fun j hj => decide_eq_false ?_⟩
      exact Std.not_lt.2 (Std.le_trans (c.points_le (by omega) (by omega)) hlow)
    rw [if_neg (Std.not_lt.2 hfirst), if_pos hlast, hfind, Nat.add_sub_cancel]

/-- Bins from one cut to before the next. -/
theorem tiles (c : Cuts T) : Tiles c (Binning.high c ≤ ·) False where
  underflow x := by
    change locate c x = .underflow ↔ x < c.first
    rw [locate]
    split_ifs <;> simp_all
  overflow x := by
    have hpos : 0 < c.points.length := by have := c.twoPoints; omega
    have hends : c.first ≤ c.last := Std.le_trans (c.first_le hpos) (c.le_last hpos)
    change locate c x = .overflow ↔ c.last ≤ x
    rw [locate]
    split_ifs with hlow hhigh
    · exact iff_of_false nofun (Std.not_le.2 (Std.lt_of_lt_of_le hlow hends))
    · exact iff_of_false nofun (Std.not_le.2 hhigh)
    · exact iff_of_true rfl (Std.not_lt.1 hhigh)
  upward x y hxy hx := Std.le_trans hx hxy
  bin x i := by
    change locate c x = .bin i ↔ i < c.points.length - 1 ∧ _
    rw [locate_eq_bin_iff]
    constructor
    · rintro ⟨hi, hlow, hhigh⟩
      exact ⟨by omega, _, _, c.range?_eq hi, hlow, .inl hhigh⟩
    · rintro ⟨hi, low, high, hrange, hlow, hhigh | ⟨hfalse, -⟩⟩
      · rw [c.range?_eq (by omega)] at hrange
        cases hrange
        exact ⟨by omega, hlow, hhigh⟩
      · exact hfalse.elim
  ordered i hi := by
    change i < c.points.length - 1 at hi
    exact ⟨_, _, c.range?_eq (by omega), c.points_le (by omega) _⟩
  adjacent i hi := by
    change i + 1 < c.points.length - 1 at hi
    exact ⟨_, _, _, c.range?_eq (by omega), c.range?_eq (by omega)⟩

end Cuts

/-- What a configuration chooses is a range or cuts. -/
theorem ChosenBinning.tiles (b : ChosenBinning) :
    ∃ (above : UInt64 → Prop) (closed : Prop), Tiles b above closed := by
  cases b with
  | integerRange r =>
    have h := r.tiles
    exact ⟨_, _, h.underflow, h.overflow, h.upward, h.bin, h.ordered, h.adjacent⟩
  | explicitCuts c =>
    have h := c.tiles
    exact ⟨_, _, h.underflow, h.overflow, h.upward, h.bin, h.ordered, h.adjacent⟩

/-! ### Every binning -/

/-- Where a binning puts samples: below the lowest, above, or in the bin whose range holds them,
which is the only one. Where the last bin is `closed`, its end belongs to it. Each bin begins where
the one before it ends. Samples are counted in bins that exist, larger ones in no earlier bin. -/
structure Partitions {B T : Type} [Binning B T] [LE T] [LT T] (b : B) (above : T → Prop)
    (closed : Prop) : Prop where
  underflow : ∀ x, Binning.locate b x = .underflow ↔ x < Binning.low b
  overflow : ∀ x, Binning.locate b x = .overflow ↔ above x
  within : ∀ x, ¬ x < Binning.low b → ¬ above x → ∃ i low high,
    Binning.locate b x = .bin i ∧ i < Binning.size b ∧ Binning.range? b i = some (low, high) ∧
      low ≤ x ∧ (x < high ∨ closed ∧ i + 1 = Binning.size b ∧ x = high)
  holds : ∀ x i low high, i < Binning.size b → Binning.range? b i = some (low, high) → low ≤ x →
    x < high → Binning.locate b x = .bin i
  adjacent : ∀ i, i + 1 < Binning.size b → ∃ low middle high,
    Binning.range? b i = some (low, middle) ∧ Binning.range? b (i + 1) = some (middle, high)
  counted : ∀ x, Binning.binOf b x < Binning.size b
  monotone : ∀ x y, x ≤ y → Binning.binOf b x ≤ Binning.binOf b y

theorem Tiles.partitions {B T : Type} [Binning B T] [LawfulBinning B] [LE T] [LT T]
    [Std.IsLinearOrder T] [Std.LawfulOrderLT T] {b : B} {above : T → Prop} {closed : Prop}
    (h : Tiles b above closed) : Partitions b above closed where
  underflow := h.underflow
  overflow := h.overflow
  within x hlow habove := by
    cases hx : Binning.locate b x with
    | underflow => exact absurd ((h.underflow x).1 hx) hlow
    | overflow => exact absurd ((h.overflow x).1 hx) habove
    | bin i =>
      obtain ⟨hi, low, high, hrange⟩ := (h.bin x i).1 hx
      exact ⟨i, low, high, rfl, hi, hrange⟩
  holds x i low high hi hrange hlow hhigh := (h.bin x i).2 ⟨hi, low, high, hrange, hlow, .inl hhigh⟩
  adjacent := h.adjacent
  counted := Binning.binOf_lt_size b
  monotone _ _ := h.binOf_le_binOf

/-- Every range of integers that is accepted, and all cuts that are. Above a range are the samples
larger than its last, and above cuts those from the last cut on. -/
structure PartitionsAll (T : Type) [IntegerSample T] [LE T] [LT T] [DecidableLT T] : Prop where
  ranges : ∀ (first last : T) (r : IntegerRange T), IntegerRange.make first last = .ok r →
    Partitions r (last < ·) (∀ x, x ≤ last)
  cuts : ∀ (points : List T) (c : Cuts T), Cuts.make points = .ok c →
    Partitions c (∃ last ∈ points.getLast?, last ≤ ·) False

theorem partitionsAll {T : Type} [IntegerSample T] [LE T] [LT T] [DecidableLT T]
    [Std.IsLinearOrder T] [Std.LawfulOrderLT T] [BoundedSample T] : PartitionsAll T where
  ranges first last r hr := by
    obtain ⟨-, rfl⟩ := IntegerRange.ends_of_make hr
    exact r.tiles.partitions
  cuts points c hc := by
    obtain rfl := Cuts.points_of_make hc
    have hlast : c.points.getLast? = some c.last := List.getLast?_eq_some_getLast _
    simp only [hlast, Option.mem_some_iff, exists_eq_left']
    exact c.tiles.partitions

theorem binnings_partition : PartitionsAll UInt32 ∧ PartitionsAll UInt64 ∧ PartitionsAll Int32 ∧
    PartitionsAll Int64 :=
  ⟨partitionsAll, partitionsAll, partitionsAll, partitionsAll⟩

/-- The last bin before the end of the type holds its own end. -/
example : ∃ r : IntegerRange Int32, IntegerRange.make 2147483646 2147483647 = .ok r ∧
    Binning.locate r 2147483647 = .bin 1 ∧
    Binning.range? r 1 = some (2147483647, 2147483647) :=
  ⟨_, rfl, by decide, by decide⟩

end TopOfBook
