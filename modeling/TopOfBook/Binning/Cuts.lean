import TopOfBook.Binning.Basic

/-! Bins between cut points: `n` cuts make `n - 1` bins, each from one cut to before the next. -/

namespace TopOfBook

/-- The position of the first cut that is not above the one before it. Cuts that cannot be
compared are not above one another. -/
def firstDisorder {T : Type} [LT T] [DecidableLT T] (position : Nat) : List T → Option Nat
  | a :: b :: rest => if a < b then firstDisorder (position + 1) (b :: rest) else some position
  | _ => none

/-- Each cut is below the next. -/
def Ascending {T : Type} [LT T] : List T → Prop
  | a :: b :: rest => a < b ∧ Ascending (b :: rest)
  | _ => True

theorem ascending_of_firstDisorder {T : Type} [LT T] [DecidableLT T] {cuts : List T}
    {position : Nat} (h : firstDisorder position cuts = none) : Ascending cuts := by
  fun_induction firstDisorder position cuts with
  | case1 _ a b rest hab ih => exact ⟨hab, ih h⟩
  | case2 => simp at h
  | case3 _ cuts hc =>
    unfold Ascending
    split
    · exact absurd rfl (hc _ _ _)
    · trivial

structure Cuts (T : Type) [LT T] where
  points : List T
  twoPoints : 2 ≤ points.length
  ascending : Ascending points

namespace Cuts

variable {T : Type} [LT T] [DecidableLT T]

def make (points : List T) : Except BinningFault (Cuts T) :=
  if h : points.length < 2 then .error (.tooFewCuts points.length)
  else match hd : firstDisorder 1 points with
    | some position => .error (.unsortedCuts position)
    | none => .ok ⟨points, by omega, ascending_of_firstDisorder hd⟩

/-- Cuts are the same when they are equal one by one. -/
instance [BEq T] : BEq (Cuts T) := ⟨fun a b => a.points == b.points⟩

def first (c : Cuts T) : T := c.points.head (by have := c.twoPoints; intro h; simp [h] at this)

def last (c : Cuts T) : T := c.points.getLast (by have := c.twoPoints; intro h; simp [h] at this)

/-- A sample lies in the bin that starts at the last cut not above it. A sample that cannot be
compared with the cuts counts as beyond them. -/
def locate (c : Cuts T) (x : T) : Placement :=
  if x < c.first then .underflow
  else if x < c.last then .bin ((c.points.takeWhile fun p => ¬ x < p).length - 1)
  else .overflow

instance : Binning (Cuts T) T where
  low := first
  high := last
  size c := c.points.length - 1
  locate := locate
  range? c i :=
    match c.points[i]?, c.points[i + 1]? with
    | some low, some high => some (low, high)
    | _, _ => none

end Cuts
end TopOfBook
