import Mathlib.Algebra.Order.Group.Nat
import TopOfBook.Proofs.RatePeriods

/-! An event rotates the ring once for each period that it completes, but no more often than there
are buckets. The bucket that counted the last event is the last to leave: while it is in the ring
the window is not empty, and once it has left there is nothing to rotate for, so that all further
periods are in one report. The total is that of the buckets all along, and no rotation takes more
off it than there is. -/

namespace TopOfBook

inductive WindowCall
  | sample (nanos : UInt64)
  | reset

namespace WindowCall

/-- The events that count after a call. -/
def remember (ts : List UInt64) : WindowCall → List UInt64
  | sample t => ts ++ [t]
  | reset => []

/-- The events since the last reset. -/
def events (calls : List WindowCall) : List UInt64 := calls.foldl remember []

theorem events_concat (calls : List WindowCall) (c : WindowCall) :
    events (calls ++ [c]) = remember (events calls) c := by
  rw [events, List.foldl_append, List.foldl_cons, List.foldl_nil, events]

end WindowCall

open WindowCall (events events_concat remember)

namespace RateWindow

def call (w : RateWindow) : WindowCall → RateWindow
  | .sample t => (w.sample t).1
  | .reset => w.reset

def run (w : RateWindow) (calls : List WindowCall) : RateWindow := calls.foldl call w

theorem run_concat (w : RateWindow) (calls : List WindowCall) (c : WindowCall) :
    w.run (calls ++ [c]) = (w.run calls).call c := by
  rw [run, List.foldl_append, List.foldl_cons, List.foldl_nil, run]

/-- A new window is after any calls as if it had only seen the events since the last reset. -/
theorem run_eq_sampleAll {measurement sampling : UInt64} {fresh : RateWindow}
    (h : make measurement sampling = .ok fresh) (calls : List WindowCall) :
    fresh.run calls = (fresh.sampleAll (events calls)).1 := by
  induction calls using List.reverseRecOn with
  | nil => rfl
  | append_singleton calls c ih =>
    rw [run_concat, events_concat, ih]
    cases c with
    | sample t => rw [remember, sampleAll_concat, call]
    | reset => exact reset_sampleAll h _

/-! ### A consistent ring -/

/-- The total is that of the `n` buckets, and the current bucket is one of them. -/
structure Consistent (n : Nat) (w : RateWindow) : Prop where
  size : w.bucketCount = n
  position : w.position < n
  total : w.total = w.buckets.sum

/-- The bucket that the next rotation empties. -/
def oldest (w : RateWindow) : Nat := (w.position + 1) % w.buckets.size

variable {n : Nat} {w : RateWindow}

theorem sum_recent (w : RateWindow) : w.recent.sum = w.buckets.sum := by
  rw [recent, (List.rotate_perm _ _).sum_eq, Array.sum_toList]

theorem ring_iff_consistent : Ring n w ↔ Consistent n w :=
  ⟨fun h => ⟨h.size, h.position, h.total.trans w.sum_recent⟩,
    fun h => ⟨h.size, h.position, h.total.trans w.sum_recent.symm⟩⟩

theorem Ring.iterate_rotate (h : Ring n w) (i : Nat) : Ring n (RateWindow.rotate^[i] w) := by
  induction i generalizing w with
  | zero => exact h
  | succ i ih => exact ih h.rotate.1

/-- The oldest bucket is in the ring, and its events are in the total. -/
theorem Consistent.oldest_le_total (h : Consistent n w) :
    ∃ hi : w.oldest < w.buckets.size, w.buckets[w.oldest] ≤ w.total := by
  have hsize : 0 < w.buckets.size := (Nat.zero_lt_of_lt h.position).trans_eq h.size.symm
  have hi : w.oldest < w.buckets.size := Nat.mod_lt _ hsize
  refine ⟨hi, ?_⟩
  rw [h.total, ← Array.sum_toList]
  exact List.le_sum_of_mem (Array.getElem_mem_toList hi)

/-! ### Rotations -/

/-- How often the ring rotates while the window moves on by so many periods. No rotation is made
for those that are left once the window is empty. -/
def rotations (w : RateWindow) : Nat → Nat
  | 0 => 0
  | periods + 1 => if w.total = 0 then 0 else rotations (rotate w) periods + 1

theorem buckets_advance (w : RateWindow) (periods : Nat) :
    (w.advance periods).1.buckets = (rotate^[w.rotations periods] w).buckets := by
  induction periods generalizing w with
  | zero => rfl
  | succ periods ih =>
    rw [advance, rotations]
    split
    · rfl
    · exact ih w.rotate

/-- Each rotation comes with the report of one period, and the periods that are left with one
report. -/
theorem reports_advance (w : RateWindow) (periods : Nat) : (w.advance periods).2 =
    (List.range (w.rotations periods)).map (fun i => ⟨(rotate^[i] w).total, 1⟩) ++
      if w.rotations periods < periods then [⟨0, periods - w.rotations periods⟩] else [] := by
  induction periods generalizing w with
  | zero => rfl
  | succ periods ih =>
    rw [advance, rotations]
    split
    · rfl
    · rw [List.range_succ_eq_map]
      simp only [ih, List.map_cons, List.map_map, List.cons_append, Nat.add_lt_add_iff_right,
        Nat.add_sub_add_right]
      rfl

theorem total_iterate_rotate_pos {periods i : Nat} (hi : i < w.rotations periods) :
    0 < (rotate^[i] w).total := by
  induction periods generalizing w i with
  | zero => exact absurd hi (Nat.not_lt_zero i)
  | succ periods ih =>
    rw [rotations] at hi
    split at hi
    · exact absurd hi (Nat.not_lt_zero i)
    · cases i with
      | zero => exact Nat.pos_of_ne_zero ‹_›
      | succ i => exact ih (w := w.rotate) (Nat.lt_of_add_lt_add_right hi)

/-- The ring rotates until the newest bucket with events leaves it. -/
theorem Ring.rotations_eq (h : Ring n w) {older : List Nat} {x newer : Nat} (hx : 0 < x)
    (hw : w.recent = older ++ x :: List.replicate newer 0) (periods : Nat) :
    w.rotations periods = min periods (older.length + 1) := by
  induction periods generalizing w older newer with
  | zero => exact (Nat.zero_min _).symm
  | succ periods ih =>
    have htotal : w.total ≠ 0 := by
      rw [h.total, hw, List.sum_append, List.sum_cons]
      omega
    obtain ⟨hring, hnext⟩ := h.rotate
    rw [rotations, if_neg htotal, Nat.add_min_add_right, Nat.add_right_cancel_iff]
    rw [hw] at hnext
    cases older with
    | nil =>
      -- all that is left are empty buckets
      have hempty : w.rotate.total = 0 := by
        rw [hring.total, hnext]
        simp
      cases periods with
      | zero => rfl
      | succ periods => rw [rotations, if_pos hempty]; rfl
    | cons _ older =>
      have hshifted : w.rotate.recent = older ++ x :: List.replicate (newer + 1) 0 := by
        rw [hnext, List.replicate_succ']
        simp
      exact ih hring hshifted

/-- After an event the current bucket is not empty. -/
theorem Ring.exists_recent_count (h : Ring n w) :
    ∃ older x, w.count.recent = older ++ [x + 1] ∧ older.length + 1 = n := by
  have hlength : w.recent.length = n := (List.length_rotate ..).trans h.size
  rcases List.eq_nil_or_concat' w.recent with hnil | ⟨older, x, hw⟩
  · rw [hnil] at hlength
    exact absurd h.position (hlength ▸ Nat.not_lt_zero _)
  · rw [hw, List.length_append, List.length_singleton] at hlength
    refine ⟨older, x, ?_, hlength⟩
    rw [h.count.2, hw, ← hlength, Nat.add_sub_cancel]
    simp [List.modify_eq_take_drop]

/-- After an event, a ring rotates for every period until each of its buckets has left. -/
theorem Ring.rotations_count (h : Ring n w) (periods : Nat) :
    w.count.rotations periods = min periods n := by
  obtain ⟨older, x, hrecent, hlength⟩ := h.exists_recent_count
  have hlast : w.count.recent = older ++ (x + 1) :: List.replicate 0 0 := hrecent
  rw [h.count.1.rotations_eq x.succ_pos hlast, hlength]

/-! ### Events -/

/-- How many periods an event completes. The first event completes none. -/
def gap (w : RateWindow) (t : UInt64) : Nat :=
  w.current.elim 0 fun current => t.toNat / w.period - current

/-- How often the ring rotates for an event. -/
def turns (w : RateWindow) (t : UInt64) : Nat := w.rotations (w.gap t)

/-- Moving to the period of an event is moving on by the periods that it completes. -/
theorem moveTo_eq_advance (w : RateWindow) (t : UInt64) :
    (w.moveTo (t.toNat / w.period)).1.buckets = (w.advance (w.gap t)).1.buckets ∧
      (w.moveTo (t.toNat / w.period)).2 = (w.advance (w.gap t)).2 := by
  cases hcurrent : w.current with
  | none => simp [moveTo, gap, hcurrent, advance]
  | some current =>
    simp only [moveTo, gap, hcurrent, Option.elim_some]
    split
    · exact ⟨rfl, rfl⟩
    · rw [Nat.sub_eq_zero_of_le (Nat.le_of_not_lt ‹_›)]
      exact ⟨rfl, rfl⟩

theorem reports_sample {t : UInt64} (h : w.turns t = min (w.gap t) n) : (w.sample t).2 =
    (List.range (w.turns t)).map (fun i => ⟨(rotate^[i] w).total, 1⟩) ++
      if n < w.gap t then [⟨0, w.gap t - n⟩] else [] := by
  have hreports : (w.sample t).2 = _ := (w.moveTo_eq_advance t).2.trans (w.reports_advance _)
  rw [hreports, ← turns]
  congr 1
  rcases le_or_gt (w.gap t) n with hle | hlt
  · rw [h, min_eq_left hle, if_neg (lt_irrefl _), if_neg hle.not_gt]
  · rw [h, min_eq_right hlt.le]

/-- What an event at `t` does to a ring of `n` buckets. It is consistent before and after each
rotation, and when the event is counted; the bucket that a rotation empties exists, and its events
are in the total. Each rotation brings a report of one period, at a rate that is not zero, and
only a gap of more than `n` periods brings one more report, of the quiet ones at its end. -/
structure Bounded (n : Nat) (w : RateWindow) (t : UInt64) : Prop where
  turns : w.turns t = min (w.gap t) n
  consistent : ∀ i ≤ w.turns t, Consistent n (rotate^[i] w)
  oldest : ∀ i < w.turns t, ∃ hi : (rotate^[i] w).oldest < (rotate^[i] w).buckets.size,
    (rotate^[i] w).buckets[(rotate^[i] w).oldest] ≤ (rotate^[i] w).total
  moved : Consistent n (w.moveTo (t.toNat / w.period)).1
  buckets : (w.moveTo (t.toNat / w.period)).1.buckets = (rotate^[w.turns t] w).buckets
  reports : (w.sample t).2 =
    (List.range (w.turns t)).map (fun i => ⟨(rotate^[i] w).total, 1⟩) ++
      if n < w.gap t then [⟨0, w.gap t - n⟩] else []
  rate_pos : ∀ i < w.turns t, 0 < (rotate^[i] w).total
  repeats_pos : ∀ r ∈ (w.sample t).2, 0 < r.repeats

section Run

variable {measurement sampling : UInt64} {fresh : RateWindow}

theorem turns_sampleAll (h : make measurement sampling = .ok fresh) (ts : List UInt64)
    (t : UInt64) :
    let w := (fresh.sampleAll ts).1
    w.turns t = min (w.gap t) (measurement / sampling).toNat := by
  intro w
  rcases List.eq_nil_or_concat' ts with hnil | ⟨before, last, hts⟩
  · have hcurrent : w.current = none := by rw [(tracks_sampleAll h ts).current, hnil]; rfl
    have hgap : w.gap t = 0 := by rw [gap, hcurrent, Option.elim_none]
    rw [turns, hgap, Nat.zero_min, rotations]
  · have ht := tracks_sampleAll h before
    have hw : w = ((fresh.sampleAll before).1.moveTo (last.toNat / sampling.toNat)).1.count := by
      rw [← ht.period]
      exact congrArg Prod.fst (hts ▸ sampleAll_concat fresh before last)
    rw [turns, hw, (ht.moveTo last).1.ring.rotations_count]

theorem bounded_sampleAll (h : make measurement sampling = .ok fresh) (ts : List UInt64)
    (t : UInt64) : Bounded (measurement / sampling).toNat (fresh.sampleAll ts).1 t := by
  have hturns := turns_sampleAll h ts t
  have ht := tracks_sampleAll h ts
  generalize (measurement / sampling).toNat = n at ht hturns ⊢
  generalize (fresh.sampleAll ts).1 = w at ht hturns ⊢
  have hconsistent (i : Nat) : Consistent n (rotate^[i] w) :=
    ring_iff_consistent.1 (ht.at_latest.ring.iterate_rotate i)
  exact {
    turns := hturns
    consistent := fun i _ => hconsistent i
    oldest := fun i _ => (hconsistent i).oldest_le_total
    moved := ring_iff_consistent.1 (ht.period ▸ (ht.moveTo t).1.ring)
    buckets := (w.moveTo_eq_advance t).1.trans (w.buckets_advance _)
    reports := reports_sample hturns
    rate_pos := fun _ => total_iterate_rotate_pos
    repeats_pos := repeats_pos_sample t }

/-- Whatever events and resets a new window has been through, it has a bucket at its position, and
its total is that of its buckets and no more than the events since the last reset. From there an
event rotates the ring once for each period that it completes, but no more often than there are
buckets, however long the gap before it. -/
theorem run_bounded (h : make measurement sampling = .ok fresh) (calls : List WindowCall) :
    Consistent (measurement / sampling).toNat (fresh.run calls) ∧
      (fresh.run calls).total ≤ (events calls).length ∧
      ∀ t, Bounded (measurement / sampling).toNat (fresh.run calls) t := by
  rw [run_eq_sampleAll h]
  have hat := (tracks_sampleAll h (events calls)).at_latest
  have hcounted : (effective sampling.toNat (events calls)).length = (events calls).length := by
    simp [effective]
  refine ⟨ring_iff_consistent.1 hat.ring, ?_, bounded_sampleAll h _⟩
  rw [hat.total, ← hcounted]
  exact List.countP_le_length

end Run

/-- Two periods to a window. After the reset, a gap made the ring start over, and another comes. -/
theorem run_bounded_afterGaps : ∃ fresh, make 20 10 = .ok fresh ∧
    let w := fresh.run [.sample 5, .sample 12, .reset, .sample 9, .sample 38]
    w.total = 1 ∧ w.turns 71 = 2 ∧ (w.sample 71).2 = [⟨1, 1⟩, ⟨1, 1⟩, ⟨0, 2⟩] := by
  refine ⟨_, rfl, ?_⟩
  obtain ⟨hconsistent, -, hbounded⟩ := run_bounded (show make 20 10 = .ok _ from rfl)
    [.sample 5, .sample 12, .reset, .sample 9, .sample 38]
  exact ⟨hconsistent.total.trans (by decide), (hbounded 71).turns.trans (by decide),
    (hbounded 71).reports.trans (by decide)⟩

end RateWindow
end TopOfBook
