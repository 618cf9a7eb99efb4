import TopOfBook.Binning.Basic

/-! Event rates over a trailing window. A ring of buckets, one for each sampling period, spans
the window. Whenever an event falls into a later period than the last one, the number of events
in the window is reported once for each period completed in between. -/

namespace TopOfBook

/-- The rate of as many sampling periods in a row. -/
structure RateReport where
  rate : Nat
  repeats : Nat
deriving DecidableEq, Repr

structure RateWindow where
  /-- Nanoseconds of a sampling period. -/
  period : Nat
  /-- Events by sampling period, in a ring. -/
  buckets : Array Nat
  /-- Where the current sampling period is in the ring. -/
  position : Nat
  /-- Events in all buckets. -/
  total : Nat
  /-- The number of the current sampling period, `none` before the first event. -/
  current : Option Nat
deriving Repr

namespace RateWindow

/-- The window must be a whole number of sampling periods, and at least one. -/
def make (measurement sampling : UInt64) : Except BinningFault RateWindow :=
  if sampling = 0 ∨ measurement < sampling ∨ measurement % sampling ≠ 0 then
    .error (.invalidRatePeriod measurement sampling)
  else
    .ok ⟨sampling.toNat, Array.replicate (measurement / sampling).toNat 0, 0, 0, none⟩

def bucketCount (w : RateWindow) : Nat := w.buckets.size

/-- Moves on by one period: the oldest bucket is emptied and becomes the current one. -/
def rotate : RateWindow → RateWindow
  | ⟨period, buckets, position, total, current⟩ =>
    let next := (position + 1) % buckets.size
    let leaving := buckets.getD next 0
    ⟨period, buckets.setIfInBounds next 0, next, total - leaving, current⟩

/-- Moves on by so many periods, reporting each of them. Once the window is empty, all that
remain are reported at once, and the ring starts over. -/
def advance (w : RateWindow) : Nat → RateWindow × List RateReport
  | 0 => (w, [])
  | periods + 1 =>
    let rate := w.total
    if rate = 0 then ({ w with position := 0 }, [⟨0, periods + 1⟩])
    else
      let (moved, reports) := advance (rotate w) periods
      (moved, ⟨rate, 1⟩ :: reports)

/-- Counts an event in the current period. -/
def count : RateWindow → RateWindow
  | ⟨period, buckets, position, total, current⟩ =>
    ⟨period, buckets.modify position (· + 1), position, total + 1, current⟩

/-- Moves on to the period of an event; earlier ones leave the window where it is. -/
def moveTo (w : RateWindow) (target : Nat) : RateWindow × List RateReport :=
  match w.current with
  | none => ({ w with current := some target, position := 0 }, [])
  | some current =>
    if current < target then
      let (moved, reports) := w.advance (target - current)
      ({ moved with current := some target }, reports)
    else (w, [])

/-- Takes an event, giving the reports of the periods completed since the one before. -/
def sample (w : RateWindow) (nanos : UInt64) : RateWindow × List RateReport :=
  let target := nanos.toNat / w.period
  let (moved, reports) := w.moveTo target
  (moved.count, reports)

/-- Forgets every event. -/
def reset (w : RateWindow) : RateWindow :=
  { w with
    buckets := Array.replicate w.buckets.size 0
    position := 0
    total := 0
    current := none }

end RateWindow
end TopOfBook
