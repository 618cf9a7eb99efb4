import Mathlib.Algebra.Order.BigOperators.Group.Finset
import TopOfBook.Histogram.Summary
import TopOfBook.Proofs.Estimates
import TopOfBook.Proofs.Samples

/-! In exact arithmetic the quantiles of any histogram that samples and merges lead to rise with
the share they are asked for. The bin of a quantile is the first one with weight up to which the
share is reached; there always is one. Quantiles never leave the extremes, so every summary is in
order. -/

namespace TopOfBook

open IntegerSample BoundedSample Weighted

/-! ### Tallies -/

namespace Tally

variable {t : Tally} {bin weight n m : Nat}

/-- No bin is stored without weight. -/
def Sparse (t : Tally) : Prop := ∀ bin weight, (bin, weight) ∈ t.toList → 0 < weight

theorem mem_toList : (bin, weight) ∈ t.toList ↔ t.weights[bin]? = some weight :=
  Std.ExtTreeMap.mem_toList_iff_getElem?_eq_some

theorem sparse_empty : Sparse .empty := by
  intro bin weight h
  rw [mem_toList] at h
  cases h

theorem Sparse.add (h : t.Sparse) (bin weight : Nat) : (t.add bin weight).Sparse := by
  intro k w hk
  rw [mem_toList, getElem?_add] at hk
  split_ifs at hk with hadded
  · cases hk
    omega
  · exact h k w (mem_toList.2 hk)

theorem weight_of_mem (h : (bin, weight) ∈ t.toList) : t.weight bin = weight := by
  rw [weight_eq, mem_toList.1 h]
  rfl

theorem toList_pairwise (t : Tally) : t.toList.Pairwise fun x y => x.1 < y.1 :=
  t.weights.ordered_keys_toList.imp fun h => Nat.compare_eq_lt.1 h

/-- The weight in the bins before the given one. -/
def weightBelow (t : Tally) (bin : Nat) : Nat := ∑ i ∈ Finset.range bin, t.weight i

theorem weightBelow_succ (t : Tally) (bin : Nat) :
    t.weightBelow (bin + 1) = t.weightBelow bin + t.weight bin :=
  Finset.sum_range_succ _ _

theorem weightBelow_le (t : Tally) (h : n ≤ m) : t.weightBelow n ≤ t.weightBelow m :=
  Finset.sum_le_sum_of_subset (Finset.range_subset_range.2 h)

theorem weightBelow_eq (t : Tally) (bin : Nat) :
    t.weightBelow bin = ((t.toList.filter fun x => x.1 < bin).map Prod.snd).sum := by
  have hlist (l : List (Nat × Nat)) : ∑ i ∈ Finset.range bin, weightIn i l =
      ((l.filter fun x => x.1 < bin).map Prod.snd).sum := by
    induction l with
    | nil => exact Finset.sum_eq_zero fun _ _ => rfl
    | cons x l ih =>
      have hin (i : Nat) : weightIn i (x :: l) = (if x.1 = i then x.2 else 0) + weightIn i l := by
        unfold weightIn
        by_cases hx : x.1 = i <;> simp [hx]
      simp only [hin, Finset.sum_add_distrib, Finset.sum_ite_eq, Finset.mem_range, ih,
        List.filter_cons, decide_eq_true_eq]
      split_ifs <;> simp
  simp only [← hlist, weightIn_toList, weightBelow]

/-- The bins before a stored one are those that are listed before it. -/
theorem weightBelow_of_split {earlier later : List (Nat × Nat)}
    (h : t.toList = earlier ++ (bin, weight) :: later) :
    t.weightBelow bin = (earlier.map Prod.snd).sum := by
  have hsorted := t.toList_pairwise
  rw [h, List.pairwise_append, List.pairwise_cons] at hsorted
  obtain ⟨-, ⟨hlater, -⟩, hearlier⟩ := hsorted
  have hkeep : earlier.filter (fun x => x.1 < bin) = earlier :=
    List.filter_eq_self.2 fun x hx => decide_eq_true (hearlier x hx _ (List.mem_cons_self ..))
  have hdrop : ((bin, weight) :: later).filter (fun x => x.1 < bin) = [] := by
    refine List.filter_eq_nil_iff.2 fun x hx => ?_
    rw [decide_eq_true_eq]
    rcases List.mem_cons.1 hx with rfl | hx
    · exact Nat.lt_irrefl _
    · exact (hlater x hx).asymm
  rw [weightBelow_eq, h, List.filter_append, hkeep, hdrop, List.append_nil]

/-- The given bin is the first one with weight up to which there is as much as `amount`. -/
structure Reaches (t : Tally) (bin : Nat) (amount : ℚ) : Prop where
  pos : 0 < t.weight bin
  reach : amount ≤ t.weightBelow (bin + 1)
  first : ∀ i < bin, 0 < t.weight i → (t.weightBelow (i + 1) : ℚ) < amount

/-- All weight lies below the end of the bins. -/
theorem weightBelow_of_lt (h : ∀ bin weight, (bin, weight) ∈ t.toList → bin < n) :
    t.weightBelow n = (t.toList.map Prod.snd).sum := by
  rw [weightBelow_eq, List.filter_eq_self.2 fun x hx => decide_eq_true (h x.1 x.2 hx)]

end Tally

/-! ### Extremes -/

namespace Extremes

variable {T : Type} [LT T] [DecidableLT T] [LE T] [Std.IsLinearOrder T] [Std.LawfulOrderLT T]
  {e : Extremes T} {x y : T}

theorem smallest_le_clamp (he : e.smallest ≤ e.largest) (x : T) : e.smallest ≤ e.clamp x := by
  grind [clamp]

theorem clamp_le_largest (he : e.smallest ≤ e.largest) (x : T) : e.clamp x ≤ e.largest := by
  grind [clamp]

theorem clamp_le_clamp (he : e.smallest ≤ e.largest) (hxy : x ≤ y) : e.clamp x ≤ e.clamp y := by
  grind [clamp]

end Extremes

/-! ### Histograms of samples -/

theorem Weighted.total_eq_zero_iff {T : Type} {xs : List (T × Nat)} :
    total xs = 0 ↔ present xs = [] := by
  rw [total, present, List.sum_eq_zero_iff, List.forall_mem_map, List.map_eq_nil_iff,
    List.filter_eq_nil_iff]
  exact forall₂_congr fun _ _ => by simp

namespace Histogram

section Reach

variable {B T : Type} [Binning B T] [LT T] [DecidableLT T]

/-- The histograms that weighted samples and merges lead to. -/
inductive Reached [BEq B] : Histogram B T → Prop
  | empty (b : B) : Reached (empty b)
  | sample {h : Histogram B T} (x : T) (weight : Nat) : Reached h →
    Reached (h.addWeighted x weight)
  | merge {a b both : Histogram B T} : Reached a → Reached b → a.merge b = .ok both → Reached both

variable [LE T] [Std.IsLinearOrder T] [Std.LawfulOrderLT T] {h : Histogram B T}

theorem Reached.eq_ofSamples [LawfulBinning B] [BEq B] [LawfulBEq B] (hr : Reached h) :
    ∃ b xs, h = ofSamples b xs := by
  induction hr with
  | empty b => exact ⟨b, [], rfl⟩
  | @sample _ x weight _ ih =>
    obtain ⟨b, xs, rfl⟩ := ih
    exact ⟨b, xs ++ [(x, weight)], by rw [ofSamples, ofSamples, List.foldl_append]; rfl⟩
  | merge _ _ hmerge ihx ihy =>
    obtain ⟨b, xs, rfl⟩ := ihx
    obtain ⟨b', ys, rfl⟩ := ihy
    by_cases hb : b' = b
    · subst hb
      rw [merge_ofSamples] at hmerge
      cases hmerge
      exact ⟨b', xs ++ ys, rfl⟩
    · rw [((countsMultiset_of_lawful b).mismatch b' hb _ _).1] at hmerge
      cases hmerge

omit [LE T] [Std.IsLinearOrder T] [Std.LawfulOrderLT T] in
theorem sparse_ofSamples (b : B) (xs : List (T × Nat)) : (ofSamples b xs).bins.Sparse := by
  induction xs using List.reverseRecOn with
  | nil => exact Tally.sparse_empty
  | append_singleton xs x ih =>
    rw [ofSamples, List.foldl_append]
    change (Histogram.addWeighted (ofSamples b xs) x.1 x.2).bins.Sparse
    rw [addWeighted]
    split_ifs
    · exact ih
    · exact ih.add _ _

/-- What the estimates of a histogram rely on: the bins with weight are bins of the binning and
hold all samples, and the extremes are in order. -/
structure Settled (h : Histogram B T) : Prop where
  sparse : h.bins.Sparse
  lt_size : ∀ bin weight, (bin, weight) ∈ h.bins.toList → bin < Binning.size h.binning
  samples : (h.bins.toList.map Prod.snd).sum = h.samples
  extremes : h.samples ≠ 0 → ∃ e, h.extremes = some e ∧ e.smallest ≤ e.largest

/-- Only bins of the binning have weight. -/
theorem lt_size_of_mem [LawfulBinning B] {b : B} {xs : List (T × Nat)} {bin weight : Nat}
    (hmem : (bin, weight) ∈ (ofSamples b xs).bins.toList) : bin < Binning.size b := by
  by_contra hge
  have hnone : xs.filter (fun x => decide (Binning.binOf b x.1 = bin)) = [] := by
    refine List.filter_eq_nil_iff.2 fun x _ => ?_
    have hx := Binning.binOf_lt_size b x.1
    rw [decide_eq_true_eq]
    omega
  have hpos := sparse_ofSamples b xs bin weight hmem
  rw [← Tally.weight_of_mem hmem, (counts_ofSamples b xs).weight, totalWhere, hnone] at hpos
  exact Nat.lt_irrefl 0 hpos

/-- There are extremes as soon as there are samples. -/
theorem extremes_eq_none_iff [LawfulBinning B] {b : B} {xs : List (T × Nat)} :
    (ofSamples b xs).extremes = none ↔ (ofSamples b xs).samples = 0 := by
  have hc := counts_ofSamples b xs
  rw [hc.extremes_eq_none, hc.samples, total_eq_zero_iff]

theorem settled_ofSamples [LawfulBinning B] (b : B) (xs : List (T × Nat)) :
    (ofSamples b xs).Settled := by
  have hc := counts_ofSamples b xs
  refine ⟨sparse_ofSamples b xs, fun bin weight hmem => ?_, ?_, fun hne => ?_⟩
  · rw [hc.binning]
    exact lt_size_of_mem hmem
  · rw [← Tally.weightBelow_of_lt fun _ _ => lt_size_of_mem, hc.samples]
    exact hc.sum_bins
  · cases he : (ofSamples b xs).extremes with
    | none => exact absurd (extremes_eq_none_iff.1 he) hne
    | some e =>
      have hspans := hc.extremes_eq_some e he
      exact ⟨e, rfl, (hspans.le _ hspans.largest_mem).1⟩

end Reach

/-! ### Estimates -/

section Found

variable {B T : Type} [Binning B T] [LE T] {h : Histogram B T} {q q' : ℚ} {s s' : BinShare}
  {low high low' high' : T} {above : T → Prop} {closed : Prop}

/-- The share `q` is found in a bin from `low` to `high`: it is reached there, and the bins before
do not go beyond it. -/
structure Found (h : Histogram B T) (q : ℚ) (s : BinShare) (low high : T) : Prop where
  find : findBin (h.samples : ℚ) q 0 h.bins.toList = some s
  range : Binning.range? h.binning s.bin = some (low, high)
  ordered : low ≤ high
  total : (0 : ℚ) < h.samples
  pos : 0 < (s.weight / h.samples : ℚ)
  start : (s.before / h.samples : ℚ) ≤ q
  reach : q ≤ s.before / h.samples + s.weight / h.samples

/-- Some bin with weight holds the share. -/
theorem Settled.exists_found [LT T] (hs : h.Settled) (ht : Tiles h.binning above closed)
    (hne : h.samples ≠ 0) (h0 : 0 ≤ q) (h1 : q ≤ 1) : ∃ s low high, Found h q s low high := by
  have hpos : (0 : ℚ) < h.samples := Nat.cast_pos.2 (Nat.pos_of_ne_zero hne)
  have hbins : h.bins.toList ≠ [] := by
    intro hnil
    have hsum := hs.samples
    rw [hnil] at hsum
    exact hne hsum.symm
  have hall : q ≤ ((0 + (h.bins.toList.map Prod.snd).sum : ℕ) : ℚ) / h.samples := by
    rw [Nat.zero_add, hs.samples, div_self hpos.ne']
    exact h1
  obtain ⟨s, hfind⟩ := exists_findBin hbins hall
  obtain ⟨earlier, later, hsplit, hbefore, hreach, hstart⟩ := findBin_eq_some hfind
  have hmem := mem_of_findBin hfind
  obtain ⟨low, high, hrange, hle⟩ := ht.ordered s.bin (hs.lt_size _ _ hmem)
  refine ⟨s, low, high, hfind, hrange, hle, hpos, ?_, ?_, ?_⟩
  · exact div_pos (Nat.cast_pos.2 (hs.sparse _ _ hmem)) hpos
  · by_cases hnil : earlier = []
    · subst hnil
      rw [hbefore]
      simpa using h0
    · exact (hstart hnil).le
  · rwa [← add_div, ← Nat.cast_add]

/-- The bin where a share is found is the first one that reaches it. -/
theorem Found.reaches (hs : h.Settled) (f : Found h q s low high) :
    h.bins.Reaches s.bin (q * h.samples) := by
  obtain ⟨earlier, later, hsplit, hbefore, hreach, hstart⟩ := findBin_eq_some f.find
  have hmem := mem_of_findBin f.find
  have hbelow : h.bins.weightBelow s.bin = s.before := by
    rw [Tally.weightBelow_of_split hsplit, hbefore, Nat.zero_add]
  refine ⟨?_, ?_, fun j hj hweight => ?_⟩
  · rw [Tally.weight_of_mem hmem]
    exact hs.sparse _ _ hmem
  · rw [Tally.weightBelow_succ, hbelow, Tally.weight_of_mem hmem]
    exact (le_div_iff₀ f.total).1 hreach
  · -- a bin with weight before the one that is found is listed, so `earlier` is not empty
    have hle : h.bins.weightBelow (j + 1) ≤ s.before :=
      (Tally.weightBelow_le _ hj).trans_eq hbelow
    have hearlier : earlier ≠ [] := by
      rintro rfl
      rw [Tally.weightBelow_succ, hbefore, List.map_nil, List.sum_nil] at hle
      omega
    exact (Nat.cast_le.2 hle).trans_lt ((div_lt_iff₀ f.total).1 (hstart hearlier))

section Estimate

variable [IntegerSample T]

/-- The estimate for a share that is found in a bin. -/
def estimate (h : Histogram B T) (s : BinShare) (low high : T) (q : ℚ) : T :=
  interpolate low high (s.before / h.samples : ℚ) (s.weight / h.samples) q

theorem Found.rawQuantile?_eq (f : Found h q s low high) :
    h.rawQuantile? q = some (h.estimate s low high q) := by
  have hfind : findBin (Scalar.ofCount h.samples) q 0 h.bins.toList = some s := f.find
  rw [rawQuantile?, hfind]
  change (Binning.range? h.binning s.bin).bind _ = _
  rw [f.range]
  rfl

variable [LT T] [BoundedSample T]

theorem Found.mem (f : Found h q s low high) :
    low ≤ h.estimate s low high q ∧ h.estimate s low high q ≤ high :=
  interpolate_mem f.ordered f.pos f.start f.reach

/-- The estimate of a larger share is no smaller: in the same bin it lies further on, and a later
bin begins only where the earlier one ends. -/
theorem Found.estimate_le [Std.IsLinearOrder T] (hs : h.Settled)
    (ht : Tiles h.binning above closed) (f : Found h q s low high)
    (f' : Found h q' s' low' high') (hq : q ≤ q') :
    h.estimate s low high q ≤ h.estimate s' low' high' q' := by
  rcases findBin_le_findBin h.bins.toList_pairwise hq f.find f'.find with rfl | hlt
  · cases f.range.symm.trans f'.range
    exact interpolate_le_interpolate f.ordered f.pos f.start hq f'.reach
  · have hsize := hs.lt_size _ _ (mem_of_findBin f'.find)
    have hnext := ht.high_le_low hlt hsize f.range f'.range
    exact Std.le_trans f.mem.2 (Std.le_trans hnext f'.mem.1)

end Estimate

end Found

end Histogram

/-! ### Quantiles -/

/-- From the smallest sample to the largest, with the percentiles between them. -/
def Summary.InOrder (s : Summary ℚ) : Prop :=
  s.min ≤ s.p25 ∧ s.p25 ≤ s.p50 ∧ s.p50 ≤ s.p75 ∧ s.p75 ≤ s.p90 ∧ s.p90 ≤ s.p99 ∧ s.p99 ≤ s.max

namespace Histogram

/-- The quantiles of a histogram rise with the share. Before it is held to the extremes, the
estimate lies in the first bin with weight up to which the share is reached; there always is one.
The summary is in order. -/
structure QuantilesRise {B T : Type} [Binning B T] [IntegerSample T] [LE T] [LT T] [DecidableLT T]
    (h : Histogram B T) : Prop where
  monotone : h.samples ≠ 0 → ∀ q q' : ℚ, 0 ≤ q → q ≤ q' → q' ≤ 1 →
    ∃ x x', h.quantile q = .ok x ∧ h.quantile q' = .ok x' ∧ x ≤ x'
  within : h.samples ≠ 0 → ∀ q : ℚ, 0 ≤ q → q ≤ 1 → ∃ bin low high e x,
    h.bins.Reaches bin (q * h.samples) ∧ Binning.range? h.binning bin = some (low, high) ∧
      h.rawQuantile? q = some x ∧ low ≤ x ∧ x ≤ high ∧ h.extremes = some e ∧
      h.quantile q = .ok (e.clamp x)
  summary : (h.summary : Summary ℚ).InOrder

section Quantile

variable {B T : Type} [Binning B T] [IntegerSample T] [LT T] [DecidableLT T]
  {h : Histogram B T} {e : Extremes T} {q : ℚ} {x : T}

theorem quantile_of_raw (h0 : 0 ≤ q) (h1 : q ≤ 1) (he : h.extremes = some e)
    (hx : h.rawQuantile? q = some x) : h.quantile q = .ok (e.clamp x) := by
  have hq : h.quantile? q = some (e.clamp x) := by
    rw [quantile?, he]
    dsimp only
    rw [hx]
    rfl
  have hguard : (Scalar.atMost (Scalar.ofCount 0) q && Scalar.atMost q (Scalar.ofCount 1)) =
      true := by
    simp [Scalar.atMost, Scalar.ofCount, h0, h1]
  rw [quantile, if_pos hguard, hq]

/-- A whole number of percent is a share between none and all. -/
theorem percent_mem {n : ℕ} (hn : n ≤ 100) : (0 : ℚ) ≤ n / 100 ∧ (n : ℚ) / 100 ≤ 1 := by
  have hcast : (n : ℚ) ≤ 100 := by exact_mod_cast hn
  exact ⟨by positivity, (div_le_one (by norm_num)).2 hcast⟩

theorem percentileOrZero_of_quantile {n : ℕ} (hn : n ≤ 100)
    (hx : h.quantile ((n : ℚ) / 100) = .ok x) :
    h.percentileOrZero (Scalar.ofCount n : ℚ) = Measured.toScalar x := by
  have hguard : (Scalar.atMost (Scalar.ofCount 0 : ℚ) (Scalar.ofCount n) &&
      Scalar.atMost (Scalar.ofCount n : ℚ) (Scalar.ofCount 100)) = true := by
    simp [Scalar.atMost, Scalar.ofCount, hn]
  have hp : h.percentile (Scalar.ofCount n : ℚ) = .ok x := by
    rw [percentile, if_pos hguard]
    exact hx
  rw [percentileOrZero, hp]

end Quantile

section Rise

variable {B T : Type} [Binning B T] [IntegerSample T] [LE T] [LT T] [DecidableLT T]
  [Std.IsLinearOrder T] [Std.LawfulOrderLT T] [BoundedSample T] {h : Histogram B T}
  {above : T → Prop} {closed : Prop}

theorem Settled.quantile_monotone (hs : h.Settled) (ht : Tiles h.binning above closed)
    (hne : h.samples ≠ 0) {q q' : ℚ} (h0 : 0 ≤ q) (hq : q ≤ q') (h1 : q' ≤ 1) :
    ∃ x x', h.quantile q = .ok x ∧ h.quantile q' = .ok x' ∧ x ≤ x' := by
  obtain ⟨e, he, horder⟩ := hs.extremes hne
  obtain ⟨s, low, high, f⟩ := hs.exists_found ht hne h0 (hq.trans h1)
  obtain ⟨s', low', high', f'⟩ := hs.exists_found ht hne (h0.trans hq) h1
  refine ⟨_, _, quantile_of_raw h0 (hq.trans h1) he f.rawQuantile?_eq,
    quantile_of_raw (h0.trans hq) h1 he f'.rawQuantile?_eq, ?_⟩
  exact Extremes.clamp_le_clamp horder (f.estimate_le hs ht f' hq)

/-- A percentile for a larger number of percent is no smaller. -/
theorem Settled.percentile_le (hs : h.Settled) (ht : Tiles h.binning above closed)
    (hne : h.samples ≠ 0) {n m : ℕ} (hnm : n ≤ m) (hm : m ≤ 100) :
    (h.percentileOrZero (Scalar.ofCount n) : ℚ) ≤ h.percentileOrZero (Scalar.ofCount m) := by
  have hn := hnm.trans hm
  have hle : (n : ℚ) / 100 ≤ m / 100 :=
    div_le_div_of_nonneg_right (Nat.cast_le.2 hnm) (by norm_num)
  obtain ⟨x, x', hx, hx', hxx⟩ :=
    hs.quantile_monotone ht hne (percent_mem hn).1 hle (percent_mem hm).2
  rw [percentileOrZero_of_quantile hn hx, percentileOrZero_of_quantile hm hx']
  exact toScalar_le_toScalar.2 hxx

theorem Settled.percentile_mem (hs : h.Settled) (ht : Tiles h.binning above closed)
    (hne : h.samples ≠ 0) {e : Extremes T} (he : h.extremes = some e)
    (horder : e.smallest ≤ e.largest) {n : ℕ} (hn : n ≤ 100) :
    (Measured.toScalar e.smallest : ℚ) ≤ h.percentileOrZero (Scalar.ofCount n) ∧
      h.percentileOrZero (Scalar.ofCount n) ≤ (Measured.toScalar e.largest : ℚ) := by
  obtain ⟨h0, h1⟩ := percent_mem hn
  obtain ⟨s, low, high, f⟩ := hs.exists_found ht hne h0 h1
  rw [percentileOrZero_of_quantile hn (quantile_of_raw h0 h1 he f.rawQuantile?_eq)]
  exact ⟨toScalar_le_toScalar.2 (Extremes.smallest_le_clamp horder _),
    toScalar_le_toScalar.2 (Extremes.clamp_le_largest horder _)⟩

theorem Settled.summary_inOrder (hs : h.Settled) (ht : Tiles h.binning above closed) :
    (h.summary : Summary ℚ).InOrder := by
  by_cases hne : h.samples = 0
  · have hempty : h.isEmpty = true := beq_iff_eq.2 hne
    rw [summary, if_pos hempty]
    simp [Summary.InOrder, Summary.zero]
  · obtain ⟨e, he, horder⟩ := hs.extremes hne
    have hsome : ¬ h.isEmpty = true := by
      rw [isEmpty, beq_iff_eq]
      exact hne
    have hrise {n m : ℕ} := hs.percentile_le (n := n) (m := m) ht hne
    have hends {n : ℕ} := hs.percentile_mem (n := n) ht hne he horder
    rw [summary, if_neg hsome, he]
    exact ⟨(hends (by decide)).1, hrise (by decide) (by decide), hrise (by decide) (by decide),
      hrise (by decide) (by decide), hrise (by decide) (by decide), (hends (by decide)).2⟩

theorem Settled.quantilesRise (hs : h.Settled) (ht : Tiles h.binning above closed) :
    h.QuantilesRise where
  monotone hne _ _ h0 hq h1 := hs.quantile_monotone ht hne h0 hq h1
  within hne q h0 h1 := by
    obtain ⟨e, he, -⟩ := hs.extremes hne
    obtain ⟨s, low, high, f⟩ := hs.exists_found ht hne h0 h1
    exact ⟨s.bin, low, high, e, _, f.reaches hs, f.range, f.rawQuantile?_eq, f.mem.1, f.mem.2, he,
      quantile_of_raw h0 h1 he f.rawQuantile?_eq⟩
  summary := hs.summary_inOrder ht

theorem Reached.quantilesRise [LawfulBinning B] [BEq B] [LawfulBEq B] (hr : h.Reached)
    (ht : Tiles h.binning above closed) : h.QuantilesRise := by
  obtain ⟨b, xs, rfl⟩ := hr.eq_ofSamples
  exact (settled_ofSamples b xs).quantilesRise ht

end Rise

/-- Every histogram that is reached over a range of integers or over cuts. -/
structure AllQuantilesRise (T : Type) [IntegerSample T] [DecidableEq T] [LE T] [LT T]
    [DecidableLT T] : Prop where
  ranges : ∀ h : Histogram (IntegerRange T) T, h.Reached → h.QuantilesRise
  cuts : ∀ h : Histogram (Cuts T) T, h.Reached → h.QuantilesRise

theorem allQuantilesRise {T : Type} [IntegerSample T] [DecidableEq T] [LE T] [LT T]
    [DecidableLT T] [Std.IsLinearOrder T] [Std.LawfulOrderLT T] [BoundedSample T] :
    AllQuantilesRise T where
  ranges h hr := hr.quantilesRise h.binning.tiles
  cuts h hr := hr.quantilesRise h.binning.tiles

theorem quantiles_rise : AllQuantilesRise UInt32 ∧ AllQuantilesRise UInt64 ∧
    AllQuantilesRise Int32 ∧ AllQuantilesRise Int64 ∧
    ∀ h : Histogram ChosenBinning UInt64, h.Reached → h.QuantilesRise := by
  refine ⟨allQuantilesRise, allQuantilesRise, allQuantilesRise, allQuantilesRise, fun h hr => ?_⟩
  obtain ⟨above, closed, ht⟩ := h.binning.tiles
  exact hr.quantilesRise ht

/-- In the second bin, a third of the way from 0 to 7. -/
example : ∃ cuts : Cuts Int32, Cuts.make [-5, 0, 7] = .ok cuts ∧
    (ofSamples cuts [(-4, 1), (3, 3)]).rawQuantile? (1 / 2 : ℚ) = some 2 :=
  ⟨_, rfl, by decide +kernel⟩

end Histogram
end TopOfBook
