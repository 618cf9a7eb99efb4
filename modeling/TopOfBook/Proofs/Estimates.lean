import Mathlib.Data.Rat.Floor
import Mathlib.Tactic.Linarith
import TopOfBook.Histogram.Quantile
import TopOfBook.Proofs.Partitions

/-! Estimates in exact arithmetic. The estimate in a bin lies between the ends of the bin and rises
with the share asked for; the search for the bin finds the first one up to which the share is
reached, and a larger share is found in no earlier bin. -/

namespace TopOfBook

open IntegerSample BoundedSample

instance : Scalar ℚ where
  ofCount n := n
  floor q := ⌊q⌋
  atMost a b := decide (a ≤ b)

instance {T : Type} [IntegerSample T] : Measured T ℚ where
  toScalar x := toInt x
  ofScalar q := ofInt (q.num.tdiv q.den)

/-! ### Inside a bin -/

/-- Where the share `q` falls between two ends, when `share` follows on `before` and is spread
evenly from one end to the other. -/
def pointAt (low high before share q : ℚ) : ℚ := low + (q - before) * (high - low) / share

section Point

variable {low high before share q q' : ℚ}

theorem le_pointAt (hle : low ≤ high) (hshare : 0 < share) (hq : before ≤ q) :
    low ≤ pointAt low high before share q := by
  have hpart : 0 ≤ (q - before) * (high - low) / share :=
    div_nonneg (mul_nonneg (sub_nonneg.2 hq) (sub_nonneg.2 hle)) hshare.le
  exact le_add_of_nonneg_right hpart

theorem pointAt_le_pointAt (hle : low ≤ high) (hshare : 0 < share) (hq : q ≤ q') :
    pointAt low high before share q ≤ pointAt low high before share q' := by
  have hpart : (q - before) * (high - low) ≤ (q' - before) * (high - low) :=
    mul_le_mul_of_nonneg_right (sub_le_sub_right hq before) (sub_nonneg.2 hle)
  exact add_le_add_right (div_le_div_of_nonneg_right hpart hshare.le) low

theorem pointAt_le (hle : low ≤ high) (hshare : 0 < share) (hq : q ≤ before + share) :
    pointAt low high before share q ≤ high := by
  have hend : pointAt low high before share (before + share) = high := by
    rw [pointAt, add_sub_cancel_left, mul_div_cancel_left₀ _ hshare.ne', add_sub_cancel]
  exact (pointAt_le_pointAt hle hshare hq).trans_eq hend

theorem floor_pointAt_mem {m n : ℤ} (hle : m ≤ n) (hshare : 0 < share) (hbefore : before ≤ q)
    (hq : q ≤ before + share) :
    m ≤ ⌊pointAt m n before share q⌋ ∧ ⌊pointAt m n before share q⌋ ≤ n := by
  have hends : (m : ℚ) ≤ n := Int.cast_le.2 hle
  refine ⟨Int.le_floor.2 (le_pointAt hends hshare hbefore), Int.floor_le_iff.2 ?_⟩
  exact (pointAt_le hends hshare hq).trans_lt (lt_add_one _)

end Point

section Samples

variable {T : Type} [IntegerSample T] [LE T] [LT T] [BoundedSample T]
  {low high : T} {before share q : ℚ}

theorem toScalar_le_toScalar {x y : T} :
    (Measured.toScalar x : ℚ) ≤ Measured.toScalar y ↔ x ≤ y :=
  Int.cast_le.trans (le_iff x y).symm

/-- A whole number between two samples is a sample itself. -/
theorem toInt_ofScalar {n : Int} (hlow : toInt low ≤ n) (hhigh : n ≤ toInt high) :
    toInt (Measured.ofScalar (n : ℚ) : T) = n := by
  have hleast := least_le low
  have hgreatest := le_greatest high
  change toInt (ofInt ((n : ℚ).num.tdiv (n : ℚ).den) : T) = n
  rw [Rat.num_intCast, Rat.den_intCast, Nat.cast_one, Int.tdiv_one, toInt_ofInt]
  omega

/-- The estimate in a bin is the whole number below the point where the share falls. -/
theorem toInt_interpolate (hle : low ≤ high) (hshare : 0 < share) (hbefore : before ≤ q)
    (hq : q ≤ before + share) : toInt (interpolate low high before share q) =
      ⌊pointAt (toInt low) (toInt high) before share q⌋ := by
  obtain ⟨hlow, hhigh⟩ := floor_pointAt_mem ((le_iff low high).1 hle) hshare hbefore hq
  have hsome : ¬ Scalar.atMost share (Scalar.ofCount 0) = true := by
    simpa [Scalar.atMost, Scalar.ofCount] using hshare
  rw [interpolate, if_neg hsome]
  exact toInt_ofScalar hlow hhigh

/-- The estimate never leaves its bin. -/
theorem interpolate_mem (hle : low ≤ high) (hshare : 0 < share) (hbefore : before ≤ q)
    (hq : q ≤ before + share) :
    low ≤ interpolate low high before share q ∧ interpolate low high before share q ≤ high := by
  rw [le_iff low, le_iff _ high, toInt_interpolate hle hshare hbefore hq]
  exact floor_pointAt_mem ((le_iff low high).1 hle) hshare hbefore hq

theorem interpolate_le_interpolate {q' : ℚ} (hle : low ≤ high) (hshare : 0 < share)
    (hbefore : before ≤ q) (hqq : q ≤ q') (hq' : q' ≤ before + share) :
    interpolate low high before share q ≤ interpolate low high before share q' := by
  have hends : (toInt low : ℚ) ≤ toInt high := Int.cast_le.2 ((le_iff low high).1 hle)
  rw [le_iff (interpolate ..), toInt_interpolate hle hshare hbefore (hqq.trans hq'),
    toInt_interpolate hle hshare (hbefore.trans hqq) hq']
  exact Int.floor_le_floor (pointAt_le_pointAt hends hshare hqq)

end Samples

/-! ### The search for the bin -/

/-- The search finds one of the bins, in whatever arithmetic. -/
theorem mem_of_findBin {R : Type} [Scalar R] {total q : R} {before : Nat} {l : List (Nat × Nat)}
    {s : BinShare} (h : findBin total q before l = some s) : (s.bin, s.weight) ∈ l := by
  induction l generalizing before with
  | nil => cases h
  | cons x l ih =>
    rw [findBin] at h
    split at h
    · cases h
      exact List.mem_cons_self ..
    · exact List.mem_cons_of_mem _ (ih h)

section Search

variable {total q q' : ℚ} {before bin weight : Nat} {l : List (Nat × Nat)} {s s' : BinShare}

theorem findBin_cons_of_le (h : q ≤ ((before + weight : ℕ) : ℚ) / total) :
    findBin total q before ((bin, weight) :: l) = some ⟨bin, before, weight⟩ :=
  if_pos (decide_eq_true h)

theorem findBin_cons_of_lt (h : ((before + weight : ℕ) : ℚ) / total < q) :
    findBin total q before ((bin, weight) :: l) = findBin total q (before + weight) l :=
  if_neg fun hle => (of_decide_eq_true hle).not_gt h

/-- A share that all bins together reach is found in one of them. -/
theorem exists_findBin (hl : l ≠ [])
    (hq : q ≤ ((before + (l.map Prod.snd).sum : ℕ) : ℚ) / total) :
    ∃ s, findBin total q before l = some s := by
  induction l generalizing before with
  | nil => exact absurd rfl hl
  | cons x l ih =>
    obtain ⟨bin, weight⟩ := x
    rcases le_or_gt q (((before + weight : ℕ) : ℚ) / total) with hle | hlt
    · exact ⟨_, findBin_cons_of_le hle⟩
    · rw [List.map_cons, List.sum_cons, ← Nat.add_assoc] at hq
      rw [findBin_cons_of_lt hlt]
      refine ih ?_ hq
      rintro rfl
      exact hq.not_gt hlt

/-- The bin that is found reaches the share, together with the bins before it; these alone do not,
unless there are none. -/
theorem findBin_eq_some (h : findBin total q before l = some s) : ∃ earlier later,
    l = earlier ++ (s.bin, s.weight) :: later ∧ s.before = before + (earlier.map Prod.snd).sum ∧
      q ≤ ((s.before + s.weight : ℕ) : ℚ) / total ∧
      (earlier ≠ [] → (s.before : ℚ) / total < q) := by
  induction l generalizing before with
  | nil => cases h
  | cons x l ih =>
    obtain ⟨bin, weight⟩ := x
    rcases le_or_gt q (((before + weight : ℕ) : ℚ) / total) with hle | hlt
    · rw [findBin_cons_of_le hle] at h
      cases h
      exact ⟨[], l, rfl, rfl, hle, fun hne => absurd rfl hne⟩
    · rw [findBin_cons_of_lt hlt] at h
      obtain ⟨earlier, later, rfl, hbefore, hreach, hshort⟩ := ih h
      refine ⟨(bin, weight) :: earlier, later, rfl, ?_, hreach, fun _ => ?_⟩
      · rw [hbefore, List.map_cons, List.sum_cons, Nat.add_assoc]
      · by_cases hnil : earlier = []
        · rw [hbefore, hnil]
          exact hlt
        · exact hshort hnil

/-- A larger share is found in the same bin or in a later one. -/
theorem findBin_le_findBin (hl : l.Pairwise fun x y => x.1 < y.1) (hq : q ≤ q')
    (h : findBin total q before l = some s) (h' : findBin total q' before l = some s') :
    s = s' ∨ s.bin < s'.bin := by
  induction l generalizing before with
  | nil => cases h
  | cons x l ih =>
    obtain ⟨bin, weight⟩ := x
    obtain ⟨hfirst, hrest⟩ := List.pairwise_cons.1 hl
    rcases le_or_gt q' (((before + weight : ℕ) : ℚ) / total) with hle' | hlt'
    · rw [findBin_cons_of_le (hq.trans hle')] at h
      rw [findBin_cons_of_le hle'] at h'
      exact .inl (Option.some.inj (h.symm.trans h'))
    · rw [findBin_cons_of_lt hlt'] at h'
      rcases le_or_gt q (((before + weight : ℕ) : ℚ) / total) with hle | hlt
      · rw [findBin_cons_of_le hle] at h
        cases h
        exact .inr (hfirst _ (mem_of_findBin h'))
      · rw [findBin_cons_of_lt hlt] at h
        exact ih hrest h h'

end Search

end TopOfBook
