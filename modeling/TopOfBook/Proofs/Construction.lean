import Mathlib.Tactic.Common
import TopOfBook.Proofs.Results
import TopOfBook.Replay

/-! What becomes of a configuration that passes its checks. The checks look at the order of the
bounds and of the cuts, and at the least rate and depth, but not at how many values a range has;
so a dispatcher can be built from a checked configuration exactly when none of the ranges it
needs has more values than a range may have, and the first that has is what is wrong. -/

namespace TopOfBook

/-! ### The ranges that are built -/

/-- The number of values of a range, one bin for each. -/
def BinningChoice.rangeSize? : BinningChoice → Option Nat
  | integerRange min max => some (max.toNat - min.toNat + 1)
  | explicitCuts _ => none

/-- The sizes of the ranges behind a set of feed statistics, in the order they are built. -/
def StatisticsConfig.rangeSizes (c : StatisticsConfig) : List Nat :=
  c.processingLatency.rangeSize?.toList ++ (c.interarrival.rangeSize?.toList ++
    [c.maxPerSecond.toNat + 1, c.maxPerMillisecond.toNat + 1, c.maxPerMicrosecond.toNat + 1])

/-- The sizes of the ranges that a dispatcher needs, in the order they are built. -/
def EngineConfig.rangeSizes (c : EngineConfig) : List Nat :=
  (if c.enableInstrumentStatistics then c.instrumentStatistics.rangeSizes else []) ++
    (c.statistics.rangeSizes ++
      if c.enableDepthStatistics then [c.maxBookDepth.toNat + 1] else [])

/-- The first size beyond what a range may have. -/
def oversized? (sizes : List Nat) : Option Nat := sizes.find? fun n => IntegerRange.maxBins < n

/-! ### The checks -/

theorem StatisticsConfig.binnings_of_validate {c : StatisticsConfig}
    (h : c.validate = .ok ()) :
    c.processingLatency.validate = .ok () ∧ c.interarrival.validate = .ok () := by
  obtain ⟨_, hlatency, h⟩ := exists_of_bind_eq_ok h
  obtain ⟨_, hinterarrival, -⟩ := exists_of_bind_eq_ok h
  exact ⟨hlatency, hinterarrival⟩

theorem EngineConfig.statistics_of_validate {c : EngineConfig} (h : c.validate = .ok ()) :
    c.statistics.validate = .ok () ∧ c.instrumentStatistics.validate = .ok () := by
  obtain ⟨_, hstatistics, h⟩ := exists_of_bind_eq_ok h
  obtain ⟨_, hinstruments, -⟩ := exists_of_bind_eq_ok h
  exact ⟨hstatistics, hinstruments⟩

/-! ### Building -/

/-- Something is built unless one of the ranges it needs is too large. -/
def BuiltWithin {α : Type} (build : Except BinningFault α) (sizes : List Nat) : Prop :=
  match oversized? sizes with
  | none => ∃ a, build = .ok a
  | some bins => build = .error (.tooManyBins bins IntegerRange.maxBins)

namespace BuiltWithin

variable {α β : Type}

theorem ok (a : α) : BuiltWithin (.ok a) [] := ⟨a, rfl⟩

theorem bind {x : Except BinningFault α} {f : α → Except BinningFault β} {sizes more : List Nat}
    (hx : BuiltWithin x sizes) (hf : ∀ a, BuiltWithin (f a) more) :
    BuiltWithin (x >>= f) (sizes ++ more) := by
  unfold BuiltWithin oversized? at hx ⊢
  rw [List.find?_append]
  cases hs : sizes.find? fun n => IntegerRange.maxBins < n with
  | none =>
    rw [hs] at hx
    obtain ⟨a, rfl⟩ := hx
    exact hf a
  | some bins =>
    rw [hs] at hx
    rw [hx]
    rfl

/-- What comes after the last range cannot fail. -/
theorem bind_ok {x : Except BinningFault α} {f : α → Except BinningFault β} {sizes : List Nat}
    (hx : BuiltWithin x sizes) (hf : ∀ a, ∃ b, f a = .ok b) : BuiltWithin (x >>= f) sizes := by
  have := hx.bind (f := f) fun a => by
    obtain ⟨b, hb⟩ := hf a
    rw [hb]
    exact ok b
  rwa [List.append_nil] at this

theorem map {x : Except BinningFault α} {sizes : List Nat} (hx : BuiltWithin x sizes)
    (f : α → β) : BuiltWithin (x.map f) sizes := by
  have := hx.bind_ok fun a => ⟨f a, rfl⟩
  cases x <;> exact this

/-- A range is built unless it is inverted. -/
theorem range {T : Type} [IntegerSample T] {first last : T}
    (h : IntegerSample.toInt first ≤ IntegerSample.toInt last) :
    BuiltWithin (IntegerRange.make first last) [IntegerRange.count first last] := by
  unfold BuiltWithin oversized? IntegerRange.make
  rw [dif_neg (Int.not_lt.2 h), List.find?_singleton]
  by_cases hsize : IntegerRange.maxBins < IntegerRange.count first last
  · rw [if_pos (decide_eq_true hsize), if_pos hsize]
  · rw [if_neg (by simpa using hsize), if_neg hsize]
    exact ⟨_, rfl⟩

end BuiltWithin

/-! ### Cuts out of order -/

/-- The `i`-th cut and the one after it are the first two neighbours out of order. -/
structure Disorder (cuts : List UInt64) (i : Nat) (previous next : UInt64) : Prop where
  at_previous : cuts[i]? = some previous
  at_next : cuts[i + 1]? = some next
  le : next ≤ previous
  first : ∀ j < i, ∀ a b, cuts[j]? = some a → cuts[j + 1]? = some b → a < b

theorem Disorder.cons {a b previous next : UInt64} {rest : List UInt64} {i : Nat} (hab : a < b)
    (h : Disorder (b :: rest) i previous next) :
    Disorder (a :: b :: rest) (i + 1) previous next := by
  obtain ⟨hprevious, hnext, hle, hfirst⟩ := h
  refine ⟨hprevious, hnext, hle, fun j hj x y hx hy => ?_⟩
  cases j with
  | zero =>
    cases hx
    cases hy
    exact hab
  | succ j => exact hfirst j (Nat.lt_of_succ_lt_succ hj) x y hx hy

/-- The two searches for cuts out of order find the same. -/
theorem searches_agree (position : Nat) (cuts : List UInt64) :
    (firstDisorder position cuts = none ∧ BinningChoice.firstUnsorted cuts = none) ∨
      ∃ i previous next, firstDisorder position cuts = some (position + i) ∧
        BinningChoice.firstUnsorted cuts = some (previous, next) ∧
        Disorder cuts i previous next := by
  fun_induction firstDisorder position cuts with
  | case1 position a b rest hab ih =>
    rw [BinningChoice.firstUnsorted, if_neg (UInt64.not_le.2 hab)]
    rcases ih with hnone | ⟨i, previous, next, hdisorder, hunsorted, h⟩
    · exact .inl hnone
    · refine .inr ⟨i + 1, previous, next, ?_, hunsorted, h.cons hab⟩
      rw [hdisorder, Nat.add_assoc, Nat.add_comm 1]
  | case2 position a b rest hab =>
    rw [BinningChoice.firstUnsorted, if_pos (UInt64.not_lt.1 hab)]
    exact .inr ⟨0, a, b, rfl, rfl, rfl, rfl, UInt64.not_lt.1 hab,
      fun j hj => absurd hj (Nat.not_lt_zero j)⟩
  | case3 position cuts hshort =>
    refine .inl ⟨rfl, ?_⟩
    unfold BinningChoice.firstUnsorted
    split
    · exact absurd rfl (hshort _ _ _)
    · rfl

theorem Cuts.make_eq_ok {cuts : List UInt64} (htwo : 2 ≤ cuts.length)
    (hsorted : BinningChoice.firstUnsorted cuts = none) : ∃ c, Cuts.make cuts = .ok c := by
  have hdisorder : firstDisorder 1 cuts = none := by
    rcases searches_agree 1 cuts with ⟨hnone, -⟩ | ⟨_, _, _, -, hsome, -⟩
    · exact hnone
    · cases hsorted.symm.trans hsome
  unfold Cuts.make
  rw [dif_neg (Nat.not_lt.2 htwo)]
  split
  · cases hdisorder.symm.trans ‹_›
  · exact ⟨_, rfl⟩

/-- The number of values, one for each from the first to the last. -/
theorem IntegerRange.count_words {min max : UInt64} (h : min ≤ max) :
    count min max = max.toNat - min.toNat + 1 := by
  have hle := UInt64.le_iff_toNat_le.1 h
  change ((max.toNat : Int) - min.toNat + 1).toNat = _
  omega

theorem DurationHistogram.builtWithin {choice : BinningChoice} (h : choice.validate = .ok ()) :
    BuiltWithin (make choice) choice.rangeSize?.toList := by
  refine BuiltWithin.map ?_ _
  cases choice with
  | integerRange min max =>
    rw [BinningChoice.validate] at h
    split at h
    · cases h
    rename_i hle
    rw [UInt64.not_lt] at hle
    rw [BinningChoice.rangeSize?, Option.toList_some, ← IntegerRange.count_words hle]
    exact (BuiltWithin.range (Int.ofNat_le.2 (UInt64.le_iff_toNat_le.1 hle))).map _
  | explicitCuts cuts =>
    rw [BinningChoice.validate] at h
    split at h
    · cases h
    rename_i htwo
    split at h
    · cases h
    rename_i hsorted
    obtain ⟨c, hc⟩ := Cuts.make_eq_ok (Nat.not_lt.1 htwo) hsorted
    rw [ChosenBinning.ofChoice, hc]
    exact .ok _

theorem CountHistogram.builtWithin (largest : Nat) :
    BuiltWithin (make largest) [largest + 1] := by
  have hcount : IntegerRange.count 0 largest = largest + 1 := by
    change ((largest : Int) - (0 : Nat) + 1).toNat = _
    omega
  rw [← hcount]
  exact (BuiltWithin.range (Int.ofNat_le.2 (Nat.zero_le largest))).map _

/-- The window of a rate needs no range; it is built where its periods divide evenly. -/
theorem RateDistribution.builtWithin (maxRate : UInt64) {measurement sampling : UInt64}
    {window : RateWindow} (h : RateWindow.make measurement sampling = .ok window) :
    BuiltWithin (make maxRate measurement sampling) [maxRate.toNat + 1] := by
  refine (CountHistogram.builtWithin maxRate.toNat).bind_ok fun rates => ⟨⟨rates, window, none⟩, ?_⟩
  rw [h]
  rfl

theorem FeedStatistics.builtWithin {c : StatisticsConfig} (h : c.validate = .ok ()) :
    BuiltWithin (make c) c.rangeSizes := by
  obtain ⟨hlatency, hinterarrival⟩ := c.binnings_of_validate h
  refine (DurationHistogram.builtWithin hlatency).bind fun latency => ?_
  refine (DurationHistogram.builtWithin hinterarrival).bind fun interarrival => ?_
  refine (RateDistribution.builtWithin c.maxPerSecond rfl).bind fun perSecond => ?_
  refine (RateDistribution.builtWithin c.maxPerMillisecond rfl).bind fun perMillisecond => ?_
  exact (RateDistribution.builtWithin c.maxPerMicrosecond rfl).bind_ok fun _ => ⟨_, rfl⟩

theorem DepthStatistics.builtWithin (maxDepth : UInt64) :
    BuiltWithin (make maxDepth) [maxDepth.toNat + 1] :=
  (CountHistogram.builtWithin maxDepth.toNat).bind_ok fun _ => ⟨_, rfl⟩

namespace Dispatcher

theorem whenEnabled_builtWithin {α : Type} (enabled : Bool) {build : Except BinningFault α}
    {sizes : List Nat} (h : BuiltWithin build sizes) :
    BuiltWithin (whenEnabled enabled build) (if enabled then sizes else []) := by
  cases enabled with
  | false => exact .ok none
  | true => exact h.map some

theorem builtWithin {c : EngineConfig} (h : c.validate = .ok ()) :
    BuiltWithin (make c) c.rangeSizes := by
  obtain ⟨hstatistics, hinstruments⟩ := c.statistics_of_validate h
  refine (whenEnabled_builtWithin c.enableInstrumentStatistics
    ((FeedStatistics.builtWithin hinstruments).map _)).bind fun instruments => ?_
  refine (FeedStatistics.builtWithin hstatistics).bind fun statistics => ?_
  exact (whenEnabled_builtWithin c.enableDepthStatistics
    (DepthStatistics.builtWithin c.maxBookDepth)).bind_ok fun _ => ⟨_, rfl⟩

/-- A checked configuration can be run if none of the ranges it needs is too large. If one is,
the first of them stops the dispatcher, the workers and the replay before the first event. -/
theorem make_of_validate {c : EngineConfig} (h : c.validate = .ok ()) :
    match oversized? c.rangeSizes with
    | none => ∃ d, make c = .ok d ∧
        Workers.start c = .ok ⟨.replicate c.shards.toNat ⟨d, 0, none, #[]⟩⟩
    | some bins =>
      let fault := BinningFault.tooManyBins bins IntegerRange.maxBins
      make c = .error fault ∧ Workers.start c = .error (.building 0 fault) ∧
        ∀ (m : Type → Type) [Monad m] (clock : m Timestamp) (items : List StreamItem),
          Replay.run clock c items = pure ⟨[], .error
            (if c.shards = 1 then .building fault else .starting (.building 0 fault))⟩ := by
  have hbuilt := builtWithin h
  unfold BuiltWithin at hbuilt
  cases hsize : oversized? c.rangeSizes with
  | none =>
    rw [hsize] at hbuilt
    obtain ⟨d, hd⟩ := hbuilt
    refine ⟨d, hd, ?_⟩
    rw [Workers.start, h, hd]
  | some bins =>
    rw [hsize] at hbuilt
    have hstart : Workers.start c =
        .error (.building 0 (.tooManyBins bins IntegerRange.maxBins)) := by
      rw [Workers.start, h, hbuilt]
    refine ⟨hbuilt, hstart, fun m _ clock items => ?_⟩
    rw [Replay.run]
    split_ifs
    · rw [Replay.single, hbuilt]
    · rw [Replay.sharded, hstart]

/-- A latency histogram with one value more than a range may have. -/
def wideLatency : EngineConfig :=
  { EngineConfig.standard with
    statistics := { StatisticsConfig.aggregate with
      processingLatency := .integerRange 0 16777216 } }

theorem make_of_validate_wideLatency :
    (EngineConfig.standard.validate = .ok () ∧ ∃ d, make .standard = .ok d) ∧
    wideLatency.validate = .ok () ∧
      make wideLatency = .error (.tooManyBins 16777217 16777216) := by
  refine ⟨⟨rfl, ?_⟩, rfl, (make_of_validate (c := wideLatency) rfl).1⟩
  obtain ⟨d, hd, -⟩ := make_of_validate (c := .standard) rfl
  exact ⟨d, hd⟩

/-- The checks let through what cannot be built. -/
theorem validate_of_unbuildable :
    ¬ ∀ c : EngineConfig, c.validate = .ok () → ∃ d, make c = .ok d := by
  intro h
  obtain ⟨d, hd⟩ := h wideLatency rfl
  have hfault : make wideLatency = .error (.tooManyBins 16777217 16777216) := rfl
  rw [hfault] at hd
  cases hd

end Dispatcher
end TopOfBook
