import Mathlib.Algebra.Order.BigOperators.Group.List
import Mathlib.Algebra.Ring.Nat
import Mathlib.Data.List.Rotate
import Mathlib.Tactic.Common
import TopOfBook.Rate.Window

/-! The rates that a window reports are those counted over the whole history. The ring of
buckets, read from the oldest to the current one, is the list of how many events fell into each
of the last periods; a rotation drops its head, and once the list holds zeros only it may start
anywhere in the ring. -/

namespace TopOfBook

/-- The rate of each of the periods a report is about. -/
def RateReport.rates (r : RateReport) : List Nat := List.replicate r.repeats r.rate

namespace RateWindow

/-- Takes events one after the other, with all reports in their order. -/
def sampleAll (w : RateWindow) (ts : List UInt64) : RateWindow × List RateReport :=
  ts.foldl (fun (w, reports) t => ((w.sample t).1, reports ++ (w.sample t).2)) (w, [])

theorem sampleAll_concat (w : RateWindow) (ts : List UInt64) (t : UInt64) :
    w.sampleAll (ts ++ [t]) =
      (((w.sampleAll ts).1.sample t).1, (w.sampleAll ts).2 ++ ((w.sampleAll ts).1.sample t).2) := by
  rw [sampleAll, List.foldl_append]
  rfl

/-! ### The history -/

/-- The latest period that an event fell into. -/
def latest (period : Nat) (ts : List UInt64) : Nat :=
  (ts.map fun t => t.toNat / period).foldl max 0

/-- The period of the first event. -/
def first (period : Nat) (ts : List UInt64) : Nat := ts.head?.elim 0 fun t => t.toNat / period

/-- The period each event counts in, which is the latest up to there. -/
def effective (period : Nat) (ts : List UInt64) : List Nat :=
  (List.range ts.length).map fun i => latest period (ts.take (i + 1))

/-- The events in the `n` periods up to the `k`-th, by the periods they count in. -/
def windowCount (n : Nat) (counted : List Nat) (k : Nat) : Nat :=
  counted.countP fun e => e ≤ k ∧ k < e + n

theorem latest_concat (period : Nat) (ts : List UInt64) (t : UInt64) :
    latest period (ts ++ [t]) = max (latest period ts) (t.toNat / period) := by
  simp [latest]

theorem effective_concat (period : Nat) (ts : List UInt64) (t : UInt64) :
    effective period (ts ++ [t]) = effective period ts ++ [latest period (ts ++ [t])] := by
  have hold : ∀ i ∈ List.range ts.length,
      latest period ((ts ++ [t]).take (i + 1)) = latest period (ts.take (i + 1)) := by
    intro i hi
    rw [List.take_append_of_le_length (Nat.succ_le_of_lt (List.mem_range.1 hi))]
  rw [effective, List.length_append, List.length_singleton, List.range_succ, List.map_append,
    List.map_congr_left hold, List.map_singleton, List.take_of_length_le (by simp)]
  rfl

theorem first_le_latest (period : Nat) (ts : List UInt64) : first period ts ≤ latest period ts := by
  induction ts using List.reverseRecOn with
  | nil => exact le_rfl
  | append_singleton ts t ih =>
    rw [latest_concat]
    cases ts with
    | nil => exact le_max_right _ _
    | cons t' ts => exact ih.trans (le_max_left _ _)

/-- An event that counts in a period from the `m`-th on is in no window before it. -/
theorem windowCount_concat_of_lt {n k m : Nat} (counted : List Nat) (hk : k < m) :
    windowCount n (counted ++ [m]) k = windowCount n counted k := by
  have hm : ¬ m ≤ k := by omega
  simp [windowCount, List.countP_append, hm]

/-- Later windows have no events but those of an earlier one, while no more come in. -/
theorem windowCount_le {n : Nat} {counted : List Nat} {now k : Nat}
    (hcounted : ∀ e ∈ counted, e ≤ now) (hk : now ≤ k) :
    windowCount n counted k ≤ windowCount n counted now := by
  refine List.countP_mono_left fun e he h => ?_
  simp only [decide_eq_true_eq] at h ⊢
  have := hcounted e he
  omega

/-! ### The last periods one by one -/

/-- The events of each of the `n` periods up to `now`, the oldest first. -/
def lastPeriods (n : Nat) (counted : List Nat) (now : Nat) : List Nat :=
  (List.range n).map fun i => counted.countP fun e => e + n = now + 1 + i

private theorem sum_indicator (x now m : Nat) :
    ((List.range m).map fun i => if x = now + 1 + i then 1 else 0).sum =
      if now < x ∧ x < now + 1 + m then 1 else 0 := by
  induction m with
  | zero => simp only [List.range_zero, List.map_nil, List.sum_nil]; split_ifs <;> omega
  | succ m ih =>
    rw [List.range_succ, List.map_append, List.sum_append, ih, List.map_singleton,
      List.sum_singleton]
    split_ifs <;> omega

theorem sum_lastPeriods (n : Nat) (counted : List Nat) (now : Nat) :
    (lastPeriods n counted now).sum = windowCount n counted now := by
  induction counted with
  | nil => simp [lastPeriods, windowCount]
  | cons e counted ih =>
    have hsplit : lastPeriods n (e :: counted) now =
        (List.range n).map fun i => counted.countP (fun e => e + n = now + 1 + i) +
          if e + n = now + 1 + i then 1 else 0 := by
      simp only [lastPeriods, List.countP_cons, decide_eq_true_eq]
    rw [hsplit, List.sum_map_add, sum_indicator, windowCount, List.countP_cons, ← windowCount,
      ← ih, lastPeriods]
    have hwindow : now < e + n ∧ e + n < now + 1 + n ↔ e ≤ now ∧ now < e + n := by omega
    simp only [decide_eq_true_eq, hwindow]

/-- One period later the oldest is gone, and the new one has no events yet. -/
theorem lastPeriods_succ {n : Nat} (hn : 0 < n) {counted : List Nat} {now : Nat}
    (hcounted : ∀ e ∈ counted, e ≤ now) :
    lastPeriods n counted (now + 1) = (lastPeriods n counted now).tail ++ [0] := by
  obtain ⟨m, rfl⟩ : ∃ m, n = m + 1 := ⟨n - 1, by omega⟩
  have hnew : counted.countP (fun e => e + (m + 1) = now + 1 + 1 + m) = 0 := by
    rw [List.countP_eq_zero]
    intro e he
    have := hcounted e he
    simp only [decide_eq_true_eq]
    omega
  rw [lastPeriods, lastPeriods, List.range_succ, List.map_append, List.map_singleton, hnew,
    ← List.range_succ, List.range_succ_eq_map, List.map_cons, List.tail_cons, List.map_map]
  congr 1
  refine List.map_congr_left fun i _ => ?_
  refine congrArg (List.countP · counted) (funext fun e => ?_)
  simp only [Nat.succ_eq_add_one, decide_eq_decide]
  omega

/-- An event in the current period is one more in the last place. -/
theorem lastPeriods_concat {n : Nat} (hn : 0 < n) (counted : List Nat) (now : Nat) :
    lastPeriods n (counted ++ [now]) now =
      (lastPeriods n counted now).modify (n - 1) (· + 1) := by
  apply List.ext_getElem
  · simp [lastPeriods]
  · intro i hi _
    have hi : i < n := by simpa [lastPeriods] using hi
    have hlast : now + n = now + 1 + i ↔ n - 1 = i := by omega
    simp only [lastPeriods, List.getElem_map, List.getElem_range, List.getElem_modify,
      List.countP_append, List.countP_singleton, decide_eq_true_eq, hlast]
    split <;> rfl

/-- While the window is empty, nothing changes from one period to the next. -/
theorem lastPeriods_of_windowCount_eq_zero {n : Nat} {counted : List Nat} {now : Nat}
    (h : windowCount n counted now = 0) : lastPeriods n counted now = List.replicate n 0 := by
  rw [← sum_lastPeriods, List.sum_eq_zero_iff_forall_eq_nat] at h
  exact List.eq_replicate_iff.2 ⟨by simp [lastPeriods], h⟩

/-! ### The ring as a list -/

/-- The buckets from the oldest to the current one. -/
def recent (w : RateWindow) : List Nat := w.buckets.toList.rotate (w.position + 1)

/-- A ring of `n` buckets, with their total kept beside them. -/
structure Ring (n : Nat) (w : RateWindow) : Prop where
  size : w.buckets.size = n
  position : w.position < n
  total : w.total = w.recent.sum

namespace Ring

variable {n : Nat} {w : RateWindow}

/-- A ring without events is the same from wherever it is read. -/
theorem recent_of_total_eq_zero (h : Ring n w) (hw : w.total = 0) (position : Nat) :
    recent { w with position } = List.replicate n 0 := by
  rw [h.total, List.sum_eq_zero_iff_forall_eq_nat] at hw
  refine List.eq_replicate_iff.2 ⟨by simp [recent, h.size], fun x hx => hw x ?_⟩
  rw [recent, List.mem_rotate] at hx ⊢
  exact hx

/-- The bucket of the current period is the last one. -/
theorem recent_of_buckets {before after : List Nat} {x : Nat}
    (hw : w.buckets.toList = before ++ x :: after) (hposition : before.length = w.position) :
    w.recent = after ++ before ++ [x] := by
  have hlength : (before ++ [x]).length = w.position + 1 := by simp [hposition]
  rw [recent, hw, ← List.singleton_append, ← List.append_assoc, ← hlength,
    List.rotate_append_length_eq, List.append_assoc]

theorem exists_buckets {i : Nat} (h : Ring n w) (hi : i < n) : ∃ before x after,
    w.buckets.toList = before ++ x :: after ∧ before.length = i := by
  have hi : i < w.buckets.toList.length := by simpa [h.size] using hi
  refine ⟨w.buckets.toList.take i, w.buckets.toList[i], w.buckets.toList.drop (i + 1), ?_, ?_⟩
  · rw [← List.drop_eq_getElem_cons, List.take_append_drop]
  · rw [List.length_take, Nat.min_eq_left hi.le]

/-- The oldest bucket makes room for an empty one. -/
theorem rotate (h : Ring n w) :
    Ring n w.rotate ∧ w.rotate.recent = w.recent.tail ++ [0] := by
  obtain ⟨period, buckets, position, total, current⟩ := w
  have hn : 0 < n := Nat.zero_lt_of_lt h.position
  have hsize : buckets.size = n := h.size
  have hnext : (position + 1) % n < n := Nat.mod_lt _ hn
  obtain ⟨before, x, after, hbuckets, hbefore⟩ := h.exists_buckets hnext
  dsimp only at hbuckets
  have hrecent : recent ⟨period, buckets, position, total, current⟩ = x :: after ++ before := by
    rw [recent, ← List.rotate_mod, Array.length_toList, hsize, ← hbefore, hbuckets,
      List.rotate_append_length_eq]
  have hleaving : buckets.getD ((position + 1) % buckets.size) 0 = x := by
    rw [Array.getD_eq_getD_getElem?, ← Array.getElem?_toList, hbuckets, hsize, ← hbefore]
    simp
  have hset : (buckets.setIfInBounds ((position + 1) % buckets.size) 0).toList =
      before ++ 0 :: after := by
    rw [Array.toList_setIfInBounds, hbuckets, hsize, ← hbefore]
    simp
  have hmoved : (RateWindow.rotate ⟨period, buckets, position, total, current⟩).recent =
      after ++ before ++ [0] :=
    recent_of_buckets hset (by rw [hbefore, ← hsize]; rfl)
  have htotal : total = (x :: after ++ before).sum := by rw [← hrecent]; exact h.total
  refine ⟨⟨?_, ?_, ?_⟩, ?_⟩
  · simp [RateWindow.rotate, hsize]
  · simpa [RateWindow.rotate, hsize] using hnext
  · rw [hmoved]
    simp only [RateWindow.rotate, hleaving, htotal, List.cons_append, List.sum_cons,
      List.sum_append, List.sum_nil]
    omega
  · rw [hmoved, hrecent]
    rfl

/-- An event is one more in the bucket of the current period. -/
theorem count (h : Ring n w) :
    Ring n w.count ∧ w.count.recent = w.recent.modify (n - 1) (· + 1) := by
  obtain ⟨before, x, after, hbuckets, hbefore⟩ := h.exists_buckets h.position
  have hlength : (after ++ before).length = n - 1 := by
    have := congrArg List.length hbuckets
    simp only [Array.length_toList, h.size, List.length_append, List.length_cons] at this ⊢
    omega
  have hmodify : w.count.buckets.toList = before ++ (x + 1) :: after := by
    rw [RateWindow.count, Array.toList_modify, hbuckets, ← hbefore, List.modify_eq_take_drop]
    simp
  have hcounted : w.count.recent = after ++ before ++ [x + 1] :=
    recent_of_buckets hmodify (by rw [hbefore]; rfl)
  have hrecent := recent_of_buckets hbuckets hbefore
  refine ⟨⟨?_, h.position, ?_⟩, ?_⟩
  · rw [RateWindow.count, Array.size_modify, h.size]
  · rw [hcounted, RateWindow.count, h.total, hrecent]
    simp [Nat.add_assoc]
  · rw [hcounted, hrecent, ← hlength]
    generalize after ++ before = older
    simp [List.modify_eq_take_drop]

end Ring

/-! ### Moving on -/

/-- A window whose current period is `now`, after events that count in the given periods. -/
structure At (n : Nat) (counted : List Nat) (now : Nat) (w : RateWindow) : Prop where
  ring : Ring n w
  recent : w.recent = lastPeriods n counted now
  counted_le : ∀ e ∈ counted, e ≤ now

namespace At

variable {n now : Nat} {counted : List Nat} {w : RateWindow}

theorem total (h : At n counted now w) : w.total = windowCount n counted now := by
  rw [h.ring.total, h.recent, sum_lastPeriods]

theorem pos (h : At n counted now w) : 0 < n := Nat.zero_lt_of_lt h.ring.position

/-- While nothing is in the window, the ring can start over in any later period. -/
theorem startOver (h : At n counted now w) (hw : w.total = 0) {later : Nat} (hle : now ≤ later) :
    At n counted later { w with position := 0 } ∧ windowCount n counted later = 0 := by
  have hzeros := h.ring.recent_of_total_eq_zero hw 0
  have hquiet : windowCount n counted later = 0 :=
    Nat.eq_zero_of_le_zero ((windowCount_le h.counted_le hle).trans (h.total ▸ hw).le)
  refine ⟨⟨⟨h.ring.size, h.pos, ?_⟩, ?_, fun e he => (h.counted_le e he).trans hle⟩, hquiet⟩
  · rw [hzeros, List.sum_replicate_nat, hw, Nat.mul_zero]
  · rw [hzeros, lastPeriods_of_windowCount_eq_zero hquiet]

theorem rotate (h : At n counted now w) : At n counted (now + 1) w.rotate := by
  obtain ⟨hring, hshift⟩ := h.ring.rotate
  refine ⟨hring, ?_, fun e he => (h.counted_le e he).trans (Nat.le_succ now)⟩
  rw [hshift, h.recent, lastPeriods_succ h.pos h.counted_le]

/-- Moving on by some periods reports the windows at the end of each of them. -/
theorem advance (periods : Nat) (h : At n counted now w) :
    At n counted (now + periods) (w.advance periods).1 ∧
      (w.advance periods).1.period = w.period ∧
      (w.advance periods).2.flatMap RateReport.rates =
        (List.range' now periods).map (windowCount n counted) := by
  induction periods generalizing w now with
  | zero => exact ⟨h, rfl, rfl⟩
  | succ periods ih =>
    by_cases hw : w.total = 0
    · have hadvance : w.advance (periods + 1) = ({ w with position := 0 }, [⟨0, periods + 1⟩]) :=
        if_pos hw
      have hall : ∀ k ∈ List.range' now (periods + 1), windowCount n counted k = 0 :=
        fun k hk => (h.startOver hw (List.left_le_of_mem_range' hk)).2
      rw [hadvance, List.map_congr_left hall]
      exact ⟨(h.startOver hw (Nat.le_add_right _ _)).1, rfl, by simp [RateReport.rates]⟩
    · have hadvance : w.advance (periods + 1) =
          ((w.rotate.advance periods).1, ⟨w.total, 1⟩ :: (w.rotate.advance periods).2) :=
        if_neg hw
      obtain ⟨hat, hperiod, hreports⟩ := ih h.rotate
      rw [hadvance]
      refine ⟨?_, hperiod, ?_⟩
      · rwa [Nat.add_right_comm] at hat
      · rw [List.flatMap_cons, hreports, h.total]
        rfl

/-- Moving to the period of an event reports all periods before it; a late event moves nothing. -/
theorem moveTo (h : At n counted now w) (hcurrent : w.current = some now) (target : Nat) :
    At n counted (max now target) (w.moveTo target).1 ∧
      (w.moveTo target).1.current = some (max now target) ∧
      (w.moveTo target).1.period = w.period ∧
      (w.moveTo target).2.flatMap RateReport.rates =
        (List.range' now (max now target - now)).map (windowCount n counted) := by
  simp only [RateWindow.moveTo, hcurrent]
  by_cases hlt : now < target
  · obtain ⟨⟨hring, hrecent, hle⟩, hperiod, hreports⟩ := h.advance (target - now)
    rw [Nat.add_sub_cancel' hlt.le] at hrecent hle
    rw [if_pos hlt, max_eq_right hlt.le]
    exact ⟨⟨⟨hring.size, hring.position, hring.total⟩, hrecent, hle⟩, rfl, hperiod, hreports⟩
  · rw [if_neg hlt, max_eq_left (Nat.le_of_not_lt hlt), Nat.sub_self]
    exact ⟨h, hcurrent, rfl, rfl⟩

theorem count (h : At n counted now w) : At n (counted ++ [now]) now w.count := by
  obtain ⟨hring, hcount⟩ := h.ring.count
  refine ⟨hring, ?_, ?_⟩
  · rw [hcount, h.recent, lastPeriods_concat h.pos]
  · intro e he
    rw [List.mem_append, List.mem_singleton] at he
    exact he.elim (h.counted_le e) fun he => he.le

end At

/-! ### Whole runs -/

/-- A window after some events, with the rates of all periods completed since the first. -/
structure Tracks (n step : Nat) (ts : List UInt64) (w : RateWindow)
    (reports : List RateReport) : Prop where
  at_latest : At n (effective step ts) (latest step ts) w
  period : w.period = step
  current : w.current = ts.head?.map fun _ => latest step ts
  reports : reports.flatMap RateReport.rates =
    (List.range' (first step ts) (latest step ts - first step ts)).map
      (windowCount n (effective step ts))

/-- A new window has seen nothing. -/
theorem tracks_make {measurement sampling : UInt64} {w : RateWindow}
    (h : make measurement sampling = .ok w) :
    Tracks (measurement / sampling).toNat sampling.toNat [] w [] := by
  rw [make] at h
  split at h
  · cases h
  · rename_i hvalid
    rw [not_or, not_or, UInt64.not_lt] at hvalid
    obtain ⟨hsampling, hle, -⟩ := hvalid
    cases h
    have hbuckets : 0 < (measurement / sampling).toNat := by
      rw [UInt64.toNat_div]
      refine Nat.div_pos (UInt64.le_iff_toNat_le.1 hle) (Nat.pos_of_ne_zero fun hzero => ?_)
      exact hsampling (UInt64.toNat_inj.1 hzero)
    have hrecent : recent ⟨sampling.toNat, .replicate (measurement / sampling).toNat 0, 0, 0,
        none⟩ = List.replicate (measurement / sampling).toNat 0 := by
      rw [recent, Array.toList_replicate, List.rotate_replicate]
    refine ⟨⟨⟨Array.size_replicate, hbuckets, ?_⟩, ?_, ?_⟩, rfl, rfl, rfl⟩
    · rw [hrecent, List.sum_replicate_nat, Nat.mul_zero]
    · rw [hrecent]
      exact (lastPeriods_of_windowCount_eq_zero rfl).symm
    · exact fun _ he => absurd he List.not_mem_nil

/-- The first event completes no period; each later one completes those before its own. -/
theorem Tracks.moveTo {n step : Nat} {ts : List UInt64} {w : RateWindow}
    {reports : List RateReport} (h : Tracks n step ts w reports) (t : UInt64) :
    At n (effective step ts) (latest step (ts ++ [t])) (w.moveTo (t.toNat / step)).1 ∧
      (w.moveTo (t.toNat / step)).1.current = some (latest step (ts ++ [t])) ∧
      (w.moveTo (t.toNat / step)).1.period = step ∧
      (reports ++ (w.moveTo (t.toNat / step)).2).flatMap RateReport.rates =
        (List.range' (first step (ts ++ [t]))
          (latest step (ts ++ [t]) - first step (ts ++ [t]))).map
            (windowCount n (effective step ts)) := by
  cases ts with
  | nil =>
    have hlatest : latest step ([] ++ [t]) = t.toNat / step := Nat.zero_max _
    have hfirst : first step ([] ++ [t]) = t.toNat / step := rfl
    obtain ⟨⟨hring, hrecent, hle⟩, -⟩ :=
      h.at_latest.startOver (h.at_latest.total.trans rfl) (Nat.zero_le (t.toNat / step))
    have hmove : w.moveTo (t.toNat / step) =
        ({ w with current := some (t.toNat / step), position := 0 }, []) := by
      rw [RateWindow.moveTo, h.current]
      rfl
    rw [hmove, hlatest, hfirst, Nat.sub_self, List.append_nil, h.reports]
    exact ⟨⟨⟨hring.size, hring.position, hring.total⟩, hrecent, hle⟩, rfl, h.period, rfl⟩
  | cons t' ts =>
    have hfirst : first step (t' :: ts ++ [t]) = first step (t' :: ts) := rfl
    have hle := first_le_latest step (t' :: ts)
    obtain ⟨hat, hcurrent, hperiod, hreports⟩ := h.at_latest.moveTo h.current (t.toNat / step)
    rw [← latest_concat] at hat hcurrent hreports
    have hmore : latest step (t' :: ts) ≤ latest step (t' :: ts ++ [t]) := by
      rw [latest_concat]
      exact le_max_left _ _
    refine ⟨hat, hcurrent, hperiod.trans h.period, ?_⟩
    rw [List.flatMap_append, h.reports, hreports, ← List.map_append, hfirst]
    obtain ⟨a, ha⟩ := Nat.exists_eq_add_of_le hle
    obtain ⟨b, hb⟩ := Nat.exists_eq_add_of_le hmore
    rw [hb, ha, Nat.add_sub_cancel_left, Nat.add_sub_cancel_left, Nat.add_assoc,
      Nat.add_sub_cancel_left, List.range'_append_1]

theorem Tracks.sample {n step : Nat} {ts : List UInt64} {w : RateWindow}
    {reports : List RateReport} (h : Tracks n step ts w reports) (t : UInt64) :
    Tracks n step (ts ++ [t]) (w.sample t).1 (reports ++ (w.sample t).2) := by
  obtain ⟨hat, hcurrent, hperiod, hreports⟩ := h.moveTo t
  have hsample : w.sample t =
      ((w.moveTo (t.toNat / step)).1.count, (w.moveTo (t.toNat / step)).2) := by
    rw [RateWindow.sample, h.period]
  rw [hsample]
  refine ⟨?_, hperiod, ?_, ?_⟩
  · rw [effective_concat]
    exact hat.count
  · rw [List.head?_append]
    cases ts <;> exact hcurrent
  · rw [hreports]
    refine List.map_congr_left fun k hk => ?_
    rw [effective_concat, windowCount_concat_of_lt]
    rw [List.mem_range'_1] at hk
    omega

theorem tracks_sampleAll {measurement sampling : UInt64} {w : RateWindow}
    (h : make measurement sampling = .ok w) (ts : List UInt64) :
    Tracks (measurement / sampling).toNat sampling.toNat ts (w.sampleAll ts).1
      (w.sampleAll ts).2 := by
  induction ts using List.reverseRecOn with
  | nil => exact tracks_make h
  | append_singleton ts t ih =>
    rw [sampleAll_concat]
    exact ih.sample t

/-- The reports of a run, each written out as often as it repeats, are the numbers of events in
the window at the end of every period from that of the first event to the one before the latest:
each completed period once and in order, whatever the gaps, and an event that comes late counts
in the period that is current then. -/
theorem sampleAll_reports_eq_windowCount {measurement sampling : UInt64} {w : RateWindow}
    (h : make measurement sampling = .ok w) (ts : List UInt64) :
    (w.sampleAll ts).2.flatMap RateReport.rates =
      (List.range' (first sampling.toNat ts)
        (latest sampling.toNat ts - first sampling.toNat ts)).map
          (windowCount (measurement / sampling).toNat (effective sampling.toNat ts)) :=
  (tracks_sampleAll h ts).reports

/-- Two periods to a window, a late event, and a gap longer than the window. -/
theorem sampleAll_reports_lateAndGap : ∃ w, make 20 10 = .ok w ∧
    (w.sampleAll [5, 12, 9, 38, 70]).2.flatMap RateReport.rates = [1, 3, 2, 1, 1, 0, 0] :=
  ⟨_, rfl, (sampleAll_reports_eq_windowCount (show make 20 10 = .ok _ from rfl) _).trans
    (by decide)⟩

end RateWindow
end TopOfBook
