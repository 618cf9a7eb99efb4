import Mathlib.Data.List.Destutter
import Mathlib.Data.List.Sort
import Mathlib.Order.WellFounded
import TopOfBook.Engine.Report
import TopOfBook.Proofs.Placements
import TopOfBook.Proofs.Records

/-! What a merge of two reports adds up, and where it stops. Statistics are added when all their
bins are the same, and refused otherwise. Those of the instruments are added in ascending order,
and the first that is refused ends the merge. -/

namespace TopOfBook

theorem Histogram.merge_eq_error {B T : Type} [LT T] [DecidableLT T] [BEq B] [LawfulBEq B]
    {a b : Histogram B T} (h : a.binning ≠ b.binning) : a.merge b = .error .differentBinning := by
  rw [merge, if_neg (mt LawfulBEq.eq_of_beq h)]

theorem RateDistribution.merge_eq_error {a b : RateDistribution}
    (h : a.rates.binning ≠ b.rates.binning) : a.merge b = .error .differentBinning := by
  rw [merge, Histogram.merge_eq_error h]
  rfl

/-- Statistics with other bins in any histogram are refused. -/
theorem FeedStatistics.merge_eq_error {a b : FeedStatistics} (h : ¬ SameBins a b) :
    a.merge b = .error .differentBinning := by
  unfold merge
  by_cases hlatency : a.latency.binning = b.latency.binning
  case neg => rw [Histogram.merge_eq_error hlatency]; rfl
  rw [Histogram.merge_eq_plus hlatency]
  by_cases hinterarrival : a.interarrival.binning = b.interarrival.binning
  case neg => rw [Histogram.merge_eq_error hinterarrival]; rfl
  rw [Histogram.merge_eq_plus hinterarrival]
  by_cases hsecond : a.perSecond.rates.binning = b.perSecond.rates.binning
  case neg => rw [RateDistribution.merge_eq_error hsecond]; rfl
  rw [RateDistribution.merge_eq_plus hsecond]
  by_cases hmilli : a.perMillisecond.rates.binning = b.perMillisecond.rates.binning
  case neg => rw [RateDistribution.merge_eq_error hmilli]; rfl
  rw [RateDistribution.merge_eq_plus hmilli]
  by_cases hmicro : a.perMicrosecond.rates.binning = b.perMicrosecond.rates.binning
  case neg => rw [RateDistribution.merge_eq_error hmicro]; rfl
  exact absurd ⟨hlatency, hinterarrival, hsecond, hmilli, hmicro⟩ h

namespace Report

open FeedStatistics (SameBins)

variable {mine : Std.ExtTreeMap Instrument FeedStatistics} {l : List (Instrument × FeedStatistics)}
  {a b : Report} {i j : Instrument}

/-! ### Corrupted instruments -/

/-- Instruments in strictly ascending order. -/
def Ascends (l : List Instrument) : Prop := l.Pairwise fun i j => i.id < j.id

/-- Ascending lists with the same instruments are equal. -/
theorem Ascends.ext {l l' : List Instrument} (hl : Ascends l) (hl' : Ascends l')
    (h : ∀ i, i ∈ l ↔ i ∈ l') : l = l' :=
  have : Std.Irrefl fun i j : Instrument => i.id < j.id := ⟨fun _ => UInt32.lt_irrefl _⟩
  have : Std.Antisymm fun i j : Instrument => i.id < j.id :=
    ⟨fun _ _ h h' => absurd (UInt32.lt_trans h h') (UInt32.lt_irrefl _)⟩
  List.Pairwise.eq_of_mem_iff hl hl' h

private theorem eraseRepsBy_loop {α : Type} [DecidableEq α] (a : α) (l acc : List α) :
    List.eraseRepsBy.loop (· == ·) a l acc = acc.reverse ++ l.destutter' (· ≠ ·) a := by
  induction l generalizing a acc with
  | nil => rw [List.eraseRepsBy.loop, List.reverse_cons, List.destutter'_nil]
  | cons b l ih =>
    rw [List.eraseRepsBy.loop]
    by_cases hab : a = b
    · rw [beq_iff_eq.2 hab, List.destutter'_cons_neg _ (not_not.2 hab)]
      exact ih a acc
    · rw [beq_eq_false_iff_ne.2 hab, List.destutter'_cons_pos _ hab]
      simpa using ih b (a :: acc)

/-- In a sorted list all repetitions are next to each other. -/
private theorem eraseReps_of_pairwise {α : Type} [DecidableEq α] {le : α → α → Prop}
    [Std.Antisymm le] {l : List α} (h : l.Pairwise le) : l.eraseReps = l.dedup := by
  rw [← h.destutter_eq_dedup]
  cases l with
  | nil => rfl
  | cons a l => exact eraseRepsBy_loop a l []

private theorem mergeCorrupted_eq_dedup (mine theirs : List Instrument) :
    ∃ sorted : List Instrument, sorted.Perm (mine ++ theirs) ∧
      (sorted.Pairwise fun i j => i.id ≤ j.id) ∧ mergeCorrupted mine theirs = sorted.dedup := by
  have hantisymm : Std.Antisymm fun i j : Instrument => i.id ≤ j.id :=
    ⟨fun _ _ h h' => Instrument.eq_of_id (UInt32.le_antisymm h h')⟩
  have hsorted : ((mine ++ theirs).mergeSort fun i j => i.id ≤ j.id).Pairwise
      fun i j => i.id ≤ j.id := by
    refine (List.pairwise_mergeSort ?_ ?_ _).imp of_decide_eq_true
    · intro i j k hij hjk
      exact decide_eq_true (UInt32.le_trans (of_decide_eq_true hij) (of_decide_eq_true hjk))
    · intro i j
      rw [Bool.or_eq_true, decide_eq_true_eq, decide_eq_true_eq]
      exact UInt32.le_total _ _
  exact ⟨_, List.mergeSort_perm _ _, hsorted, eraseReps_of_pairwise hsorted⟩

theorem mem_mergeCorrupted {mine theirs : List Instrument} :
    i ∈ mergeCorrupted mine theirs ↔ i ∈ mine ∨ i ∈ theirs := by
  obtain ⟨sorted, hperm, -, hdedup⟩ := mergeCorrupted_eq_dedup mine theirs
  rw [hdedup, List.mem_dedup, hperm.mem_iff, List.mem_append]

theorem ascends_mergeCorrupted (mine theirs : List Instrument) :
    Ascends (mergeCorrupted mine theirs) := by
  obtain ⟨sorted, -, hsorted, hdedup⟩ := mergeCorrupted_eq_dedup mine theirs
  rw [hdedup]
  refine ((hsorted.sublist (List.dedup_sublist _)).and (List.nodup_dedup _)).imp ?_
  rintro i j ⟨hle, hne⟩
  exact UInt32.lt_of_le_of_ne hle fun hid => hne (Instrument.eq_of_id hid)

/-! ### Statistics of instruments -/

theorem mergeInstruments_cons {theirs : FeedStatistics}
    (h : ∀ s, mine[i]? = some s → SameBins s theirs) (rest : List (Instrument × FeedStatistics)) :
    mergeInstruments mine ((i, theirs) :: rest) =
      mergeInstruments (mine.insert i (mine[i]?.elim theirs (·.plus theirs))) rest := by
  cases hi : mine[i]? with
  | none => simp only [mergeInstruments, hi, Option.elim_none]
  | some s =>
    simp only [mergeInstruments, hi, FeedStatistics.merge_eq_plus (h s hi), Option.elim_some]

/-- Statistics with the same bins are all added, and those of other instruments stay. -/
theorem mergeInstruments_append (mine : Std.ExtTreeMap Instrument FeedStatistics)
    (hl : (l.map Prod.fst).Nodup) (h : ∀ x ∈ l, ∀ s, mine[x.1]? = some s → SameBins s x.2) :
    ∃ sum, (∀ rest, mergeInstruments mine (l ++ rest) = mergeInstruments sum rest) ∧
      (∀ x ∈ l, sum[x.1]? = Option.merge FeedStatistics.plus mine[x.1]? (some x.2)) ∧
      ∀ i ∉ l.map Prod.fst, sum[i]? = mine[i]? := by
  induction l generalizing mine with
  | nil => exact ⟨mine, fun rest => by rw [List.nil_append], by simp, fun _ _ => rfl⟩
  | cons x l ih =>
    obtain ⟨i, theirs⟩ := x
    rw [List.map_cons, List.nodup_cons] at hl
    obtain ⟨hnew, hl⟩ := hl
    have hget : ∀ j, (mine.insert i (mine[i]?.elim theirs (·.plus theirs)))[j]? =
        if j = i then Option.merge FeedStatistics.plus mine[i]? (some theirs) else mine[j]? := by
      intro j
      rw [Std.ExtTreeMap.getElem?_insert]
      by_cases hj : j = i
      · subst hj
        cases mine[j]? <;> simp
      · simp [hj, Ne.symm hj]
    have hother : ∀ x ∈ l, x.1 ≠ i := by
      intro x hx he
      exact hnew (List.mem_map.2 ⟨x, hx, he⟩)
    obtain ⟨sum, hsum, hadded, hkept⟩ := ih _ hl fun x hx s hs => by
      rw [hget, if_neg (hother x hx)] at hs
      exact h x (List.mem_cons_of_mem _ hx) s hs
    refine ⟨sum, fun rest => ?_, fun x hx => ?_, fun j hj => ?_⟩
    · rw [List.cons_append, mergeInstruments_cons (h _ List.mem_cons_self), hsum]
    · rcases List.mem_cons.1 hx with rfl | hx
      · rw [hkept _ hnew, hget, if_pos rfl]
      · rw [hadded x hx, hget, if_neg (hother x hx)]
    · rw [List.map_cons, List.mem_cons, not_or] at hj
      rw [hkept j hj.2, hget, if_neg hj.1]

/-- Both reports have statistics of the instrument, but in other bins. -/
def Clashes (a b : Report) (i : Instrument) : Prop :=
  ∃ s t, a.byInstrument[i]? = some s ∧ b.byInstrument[i]? = some t ∧ ¬ SameBins s t

theorem mergeInstruments_of_sameBins (h : ∀ i, ¬ a.Clashes b i) :
    ∃ sum, mergeInstruments a.byInstrument b.byInstrument.toList = (sum, .ok ()) ∧
      ∀ i : Instrument, sum[i]? =
        Option.merge FeedStatistics.plus a.byInstrument[i]? b.byInstrument[i]? := by
  have hkeys : (b.byInstrument.toList.map Prod.fst).Nodup := by
    rw [Std.ExtTreeMap.map_fst_toList_eq_keys]
    exact Std.ExtTreeMap.nodup_keys
  obtain ⟨sum, hsum, hadded, hkept⟩ := mergeInstruments_append a.byInstrument hkeys
    fun x hx s hs => by
      by_contra hbins
      exact h x.1 ⟨s, x.2, hs, Std.ExtTreeMap.mem_toList_iff_getElem?_eq_some.1 hx, hbins⟩
  refine ⟨sum, by simpa [mergeInstruments] using hsum [], fun i => ?_⟩
  cases hi : b.byInstrument[i]? with
  | some t => exact hadded (i, t) (Std.ExtTreeMap.mem_toList_iff_getElem?_eq_some.2 hi)
  | none =>
    rw [Option.merge_none_right]
    apply hkept
    rw [Std.ExtTreeMap.map_fst_toList_eq_keys, Std.ExtTreeMap.mem_keys,
      Std.ExtTreeMap.mem_iff_isSome_getElem?, hi]
    exact Bool.false_ne_true

/-- The entries that come before that of an instrument are those of the instruments below it. -/
private theorem exists_entries_below {m : Std.ExtTreeMap Instrument FeedStatistics}
    {t : FeedStatistics} (ht : m[i]? = some t) :
    ∃ before after, m.toList = before ++ (i, t) :: after ∧ (before.map Prod.fst).Nodup ∧
      ∀ j u, (j, u) ∈ before ↔ j.id < i.id ∧ m[j]? = some u := by
  obtain ⟨before, after, hsplit⟩ :=
    List.append_of_mem (Std.ExtTreeMap.mem_toList_iff_getElem?_eq_some.2 ht)
  have hsorted : (before ++ (i, t) :: after).Pairwise fun x y => x.1.id < y.1.id := by
    rw [← hsplit]
    exact m.ordered_keys_toList.imp fun h => (Std.compare_eq_lt (a := Instrument.id _)).1 h
  have hmem : ∀ j u, m[j]? = some u ↔ (j, u) ∈ before ++ (i, t) :: after := by
    intro j u
    rw [← hsplit, Std.ExtTreeMap.mem_toList_iff_getElem?_eq_some]
  rw [List.pairwise_append, List.pairwise_cons] at hsorted
  obtain ⟨hbefore, ⟨hafter, -⟩, hacross⟩ := hsorted
  refine ⟨before, after, hsplit, ?_, fun j u => ?_⟩
  · rw [List.nodup_iff_pairwise_ne, List.pairwise_map]
    refine hbefore.imp fun {x y} hlt he => ?_
    rw [he] at hlt
    exact UInt32.lt_irrefl _ hlt
  · rw [hmem, List.mem_append, List.mem_cons, Prod.mk.injEq]
    refine ⟨fun hj => ⟨hacross _ hj _ List.mem_cons_self, .inl hj⟩, ?_⟩
    rintro ⟨hj, hin | ⟨rfl, -⟩ | hin⟩
    · exact hin
    · exact absurd hj (UInt32.lt_irrefl _)
    · exact absurd (UInt32.lt_trans hj (hafter _ hin)) (UInt32.lt_irrefl _)

/-- At the first instrument with other bins the merge stops, and those before it have been
added. -/
theorem mergeInstruments_of_clash (h : a.Clashes b i)
    (hfirst : ∀ j, j.id < i.id → ¬ a.Clashes b j) :
    ∃ sum, mergeInstruments a.byInstrument b.byInstrument.toList =
        (sum, .error .differentBinning) ∧
      ∀ j : Instrument, sum[j]? = Option.merge FeedStatistics.plus a.byInstrument[j]?
        (if j.id < i.id then b.byInstrument[j]? else none) := by
  obtain ⟨s, t, hs, ht, hbins⟩ := h
  obtain ⟨before, after, hsplit, hkeys, hbelow⟩ := exists_entries_below ht
  obtain ⟨sum, hsum, hadded, hkept⟩ := mergeInstruments_append a.byInstrument hkeys
    fun x hx s hs => by
      by_contra hbins
      obtain ⟨hlt, ht⟩ := (hbelow x.1 x.2).1 hx
      exact hfirst x.1 hlt ⟨s, x.2, hs, ht, hbins⟩
  have hget : ∀ j : Instrument, sum[j]? = Option.merge FeedStatistics.plus a.byInstrument[j]?
      (if j.id < i.id then b.byInstrument[j]? else none) := by
    intro j
    cases hj : if j.id < i.id then b.byInstrument[j]? else none with
    | some u =>
      rw [Option.ite_none_right_eq_some] at hj
      exact hadded (j, u) ((hbelow j u).2 hj)
    | none =>
      rw [Option.merge_none_right]
      apply hkept
      intro hin
      obtain ⟨x, hx, rfl⟩ := List.mem_map.1 hin
      obtain ⟨hlt, hu⟩ := (hbelow x.1 x.2).1 hx
      rw [if_pos hlt, hu] at hj
      cases hj
  have hi : sum[i]? = some s := by
    rw [hget, if_neg (UInt32.lt_irrefl _), Option.merge_none_right, hs]
  refine ⟨sum, ?_, hget⟩
  rw [hsplit, hsum]
  simp only [mergeInstruments, hi, FeedStatistics.merge_eq_error hbins]

/-- Either no instrument clashes, or there is a first one that does. -/
theorem exists_first_clash (a b : Report) :
    (∀ i, ¬ a.Clashes b i) ∨ ∃ i, a.Clashes b i ∧ ∀ j, j.id < i.id → ¬ a.Clashes b j := by
  by_cases h : ∃ i, a.Clashes b i
  · obtain ⟨i, hi, hmin⟩ := WellFounded.has_min (measure fun i : Instrument => i.id.toNat).wf
      {i | a.Clashes b i} h
    exact .inr ⟨i, hi, fun j hj hclash => hmin j hclash (UInt32.lt_iff_toNat_lt.1 hj)⟩
  · exact .inl (not_exists.1 h)

/-! ### Reports -/

/-- All that the two reports have in common is in the same bins. -/
structure SameBins (a b : Report) : Prop where
  statistics : FeedStatistics.SameBins a.statistics b.statistics
  byInstrument : ∀ i, ¬ a.Clashes b i
  depths : ∀ s t, a.depths = some s → b.depths = some t → s.depths.binning = t.depths.binning

/-- A report of all that two reports count. -/
structure IsSum (a b sum : Report) : Prop where
  statistics : sum.statistics = a.statistics.plus b.statistics
  byInstrument : ∀ i : Instrument, sum.byInstrument[i]? =
    Option.merge FeedStatistics.plus a.byInstrument[i]? b.byInstrument[i]?
  depths : sum.depths = Option.merge DepthStatistics.plus a.depths b.depths
  counters : sum.counters = a.counters.merge b.counters
  liveOrders : sum.liveOrders = a.liveOrders + b.liveOrders
  books : sum.books = a.books + b.books
  corrupted : sum.corrupted = mergeCorrupted a.corrupted b.corrupted

/-- What a merge leaves when it fails: all that comes before the first bins that differ has been
added, and nothing else. -/
inductive Halted (a b : Report) : Report → Prop
  | atFeed (hfeed : ¬ FeedStatistics.SameBins a.statistics b.statistics) : Halted a b a
  | atInstrument (i : Instrument) (byInstrument : Std.ExtTreeMap Instrument FeedStatistics)
      (hfeed : FeedStatistics.SameBins a.statistics b.statistics) (hclash : a.Clashes b i)
      (hfirst : ∀ j, j.id < i.id → ¬ a.Clashes b j)
      (hsum : ∀ j : Instrument, byInstrument[j]? =
        Option.merge FeedStatistics.plus a.byInstrument[j]?
          (if j.id < i.id then b.byInstrument[j]? else none)) :
      Halted a b { a with statistics := a.statistics.plus b.statistics, byInstrument }
  | atDepths (s t : DepthStatistics) (byInstrument : Std.ExtTreeMap Instrument FeedStatistics)
      (hfeed : FeedStatistics.SameBins a.statistics b.statistics) (hnone : ∀ i, ¬ a.Clashes b i)
      (hs : a.depths = some s) (ht : b.depths = some t)
      (hbins : s.depths.binning ≠ t.depths.binning)
      (hsum : ∀ j : Instrument, byInstrument[j]? =
        Option.merge FeedStatistics.plus a.byInstrument[j]? b.byInstrument[j]?) :
      Halted a b { a with statistics := a.statistics.plus b.statistics, byInstrument }

theorem mergeDepths_of_sameBins {mine theirs : Option DepthStatistics}
    (h : ∀ s t, mine = some s → theirs = some t → s.depths.binning = t.depths.binning) :
    mergeDepths mine theirs = .ok (Option.merge DepthStatistics.plus mine theirs) := by
  cases mine with
  | none => cases theirs <;> rfl
  | some s =>
    cases theirs with
    | none => rfl
    | some t =>
      rw [mergeDepths, DepthStatistics.merge_eq_plus (h s t rfl rfl)]
      rfl

/-- A merge adds up all of two reports, or stops at the first bins that differ. -/
theorem merge_cases (a b : Report) :
    (∃ sum, a.merge b = (sum, .ok ()) ∧ a.SameBins b ∧ a.IsSum b sum) ∨
      ∃ left, a.merge b = (left, .error .differentBinning) ∧ ¬ a.SameBins b ∧ a.Halted b left := by
  by_cases hfeed : FeedStatistics.SameBins a.statistics b.statistics
  case neg =>
    refine .inr ⟨a, ?_, fun h => hfeed h.statistics, .atFeed hfeed⟩
    simp only [merge, FeedStatistics.merge_eq_error hfeed]
  rcases exists_first_clash a b with hnone | ⟨i, hclash, hfirst⟩
  case inr =>
    obtain ⟨byInstrument, hmerge, hsum⟩ := mergeInstruments_of_clash hclash hfirst
    refine .inr ⟨_, ?_, fun h => h.byInstrument i hclash,
      .atInstrument i byInstrument hfeed hclash hfirst hsum⟩
    simp only [merge, FeedStatistics.merge_eq_plus hfeed, hmerge]
  obtain ⟨byInstrument, hmerge, hsum⟩ := mergeInstruments_of_sameBins hnone
  by_cases hdepths : ∀ s t, a.depths = some s → b.depths = some t →
      s.depths.binning = t.depths.binning
  case pos =>
    simp only [merge, FeedStatistics.merge_eq_plus hfeed, hmerge, mergeDepths_of_sameBins hdepths]
    exact .inl ⟨_, rfl, ⟨hfeed, hnone, hdepths⟩, ⟨rfl, hsum, rfl, rfl, rfl, rfl, rfl⟩⟩
  push Not at hdepths
  obtain ⟨s, t, hs, ht, hbins⟩ := hdepths
  refine .inr ⟨_, ?_, fun h => hbins (h.depths s t hs ht),
    .atDepths s t byInstrument hfeed hnone hs ht hbins hsum⟩
  simp only [merge, FeedStatistics.merge_eq_plus hfeed, hmerge, hs, ht, mergeDepths,
    DepthStatistics.merge, Histogram.merge_eq_error hbins]
  rfl

end Report
end TopOfBook
