import Mathlib.Data.Rat.Floor
import Mathlib.Tactic.Ring
import TopOfBook.Market.Price

/-! What a written price says. Its text is a number with a point and four digits after it, which
is a ten-thousandth of the ticks exactly, and no two prices are written alike. -/

namespace TopOfBook

/-- A number with a point and a given number of digits after it. -/
structure FixedPoint (places : Nat) where
  negative : Bool
  whole : List Char
  part : List Char
  whole_ne_nil : whole ≠ []
  isDigit_whole : ∀ c ∈ whole, c.isDigit
  isDigit_part : ∀ c ∈ part, c.isDigit
  length_part : part.length = places

namespace FixedPoint

variable {n : Nat}

def sign (d : FixedPoint n) : String := if d.negative then "-" else ""

def text (d : FixedPoint n) : String :=
  d.sign ++ String.ofList d.whole ++ "." ++ String.ofList d.part

/-- The digits read in base ten, with the point moved to its place. -/
def value (d : FixedPoint n) : ℚ :=
  let magnitude : ℚ := Nat.ofDigitChars 10 d.whole 0 + Nat.ofDigitChars 10 d.part 0 / 10 ^ n
  if d.negative then -magnitude else magnitude

theorem toList_text (d : FixedPoint n) :
    d.text.toList = (d.sign.toList ++ d.whole) ++ '.' :: d.part := by
  simp [text]

theorem mem_sign {d : FixedPoint n} {c : Char} (h : c ∈ d.sign.toList) : c = '-' := by
  unfold sign at h
  split at h <;> simp at h
  exact h

theorem notMem_of_isDigit {digits : List Char} {c : Char} (hall : ∀ c ∈ digits, c.isDigit)
    (hc : c.isDigit = false) : c ∉ digits :=
  fun hmem => Bool.false_ne_true (hc.symm.trans (hall c hmem))

theorem mem_text {d : FixedPoint n} {c : Char} (h : c ∈ d.text.toList) :
    c = '-' ∨ c = '.' ∨ c.isDigit := by
  rw [toList_text, List.mem_append, List.mem_append, List.mem_cons] at h
  rcases h with (hsign | hwhole) | hpoint | hpart
  · exact .inl (mem_sign hsign)
  · exact .inr (.inr (d.isDigit_whole c hwhole))
  · exact .inr (.inl hpoint)
  · exact .inr (.inr (d.isDigit_part c hpart))

/-- A minus sign in front of the digits is not one of them. -/
theorem negative_iff (d : FixedPoint n) :
    d.negative = true ↔ '-' ∈ d.sign.toList ++ d.whole := by
  have hwhole : '-' ∉ d.whole := notMem_of_isDigit d.isDigit_whole (by decide)
  cases h : d.negative <;> simp [sign, h, hwhole]

/-- The first point is the one after the whole part, since neither the sign nor a digit is one. -/
theorem text_inj {d e : FixedPoint n} : d.text = e.text ↔ d = e := by
  refine ⟨fun h => ?_, congrArg text⟩
  have hbefore : '.' ∉ d.sign.toList ++ d.whole := by
    intro hmem
    rcases List.mem_append.1 hmem with hsign | hwhole
    · exact absurd (mem_sign hsign) (by decide)
    · exact notMem_of_isDigit d.isDigit_whole (by decide) hwhole
  have hafter : '.' ∉ d.part := notMem_of_isDigit d.isDigit_part (by decide)
  rw [← String.toList_inj, toList_text, toList_text,
    List.append_cons_inj_of_notMem hbefore hafter] at h
  obtain ⟨hfront, -, hpart⟩ := h
  have hnegative : d.negative = e.negative := by
    rw [Bool.eq_iff_iff, negative_iff, negative_iff, hfront]
  have hwhole : d.whole = e.whole := by
    rw [sign, sign, hnegative] at hfront
    exact List.append_cancel_left hfront
  cases d; cases e
  simp_all

end FixedPoint

namespace Price

/-- The whole units and the ticks beyond them, by division of the word towards zero. -/
def units (p : Price) : Nat := (p.ticks / 10000).toInt.natAbs

def fraction (p : Price) : Nat := (p.ticks % 10000).toInt.natAbs

theorem units_eq (p : Price) : p.units = p.ticks.toInt.natAbs / 10000 := by
  rw [units, Int64.toInt_div_of_ne_right _ _ (by decide), Int.natAbs_tdiv]
  rfl

theorem fraction_eq (p : Price) : p.fraction = p.ticks.toInt.natAbs % 10000 := by
  rw [fraction, Int64.toInt_mod, Int.natAbs_tmod]
  rfl

theorem units_fraction (p : Price) : 10000 * p.units + p.fraction = p.ticks.toInt.natAbs := by
  rw [units_eq, fraction_eq, Nat.div_add_mod]

theorem length_toDigits_fraction (p : Price) : (Nat.toDigits 10 p.fraction).length ≤ 4 := by
  rw [Nat.length_toDigits_le_iff (by decide) (by decide), fraction_eq]
  exact Nat.mod_lt _ (by decide)

theorem toList_paddedDigits (width n : Nat) : (paddedDigits width n).toList =
    List.replicate (width - (Nat.toDigits 10 n).length) '0' ++ Nat.toDigits 10 n := by
  rw [paddedDigits, String.toList_append, String.toList_ofList, Nat.toList_repr,
    ← String.length_toList, Nat.toList_repr]

theorem ofDigitChars_paddedDigits (width n : Nat) :
    Nat.ofDigitChars 10 (paddedDigits width n).toList 0 = n := by
  rw [toList_paddedDigits, Nat.ofDigitChars_append, Nat.ofDigitChars_replicate_zero, Nat.mul_zero,
    Nat.ofDigitChars_ten_toDigits]

theorem isDigit_toDigits {n : Nat} {c : Char} (h : c ∈ Nat.toDigits 10 n) : c.isDigit :=
  Nat.isDigit_of_mem_toDigits (by decide) (by decide) h

/-- The number that is written for a price. -/
def decimal (p : Price) : FixedPoint 4 where
  negative := p.ticks < 0
  whole := Nat.toDigits 10 p.units
  part := (paddedDigits 4 p.fraction).toList
  whole_ne_nil := Nat.toDigits_ne_nil
  isDigit_whole _ := isDigit_toDigits
  isDigit_part c hc := by
    rw [toList_paddedDigits, List.mem_append] at hc
    rcases hc with hzero | hdigit
    · rw [List.eq_of_mem_replicate hzero]
      decide
    · exact isDigit_toDigits hdigit
  length_part := by
    rw [toList_paddedDigits, List.length_append, List.length_replicate]
    exact Nat.sub_add_cancel p.length_toDigits_fraction

@[simp] theorem decimal_whole (p : Price) : p.decimal.whole = Nat.toDigits 10 p.units := rfl

@[simp] theorem decimal_part (p : Price) :
    p.decimal.part = (paddedDigits 4 p.fraction).toList := by
  simp only [decimal]

theorem render_eq_text (p : Price) : p.render = p.decimal.text := by
  simp only [render, ticksPerUnit, ← units_eq, ← fraction_eq, FixedPoint.text, FixedPoint.sign,
    decimal, decide_eq_true_eq, Nat.repr_eq_ofList_toDigits, String.ofList_toList]

theorem value_decimal (p : Price) : p.decimal.value = p.ticks.toInt / 10000 := by
  have hwhole : Nat.ofDigitChars 10 p.decimal.whole 0 = p.units := by
    rw [decimal_whole, Nat.ofDigitChars_ten_toDigits]
  have hpart : Nat.ofDigitChars 10 p.decimal.part 0 = p.fraction := by
    rw [decimal_part, ofDigitChars_paddedDigits]
  have hmagnitude : (p.units : ℚ) + p.fraction / 10 ^ 4 = p.ticks.toInt.natAbs / 10000 := by
    rw [← p.units_fraction]
    push_cast
    ring
  have hnegative : p.decimal.negative = true ↔ p.ticks.toInt < 0 := by
    rw [decimal, decide_eq_true_eq, Int64.lt_iff_toInt_lt]
    rfl
  simp only [FixedPoint.value, hwhole, hpart, hmagnitude, hnegative, Nat.cast_natAbs]
  split
  · rename_i hneg
    rw [abs_of_neg hneg, Int.cast_neg, neg_div, neg_neg]
  · rename_i hpos
    rw [abs_of_nonneg (not_lt.1 hpos)]

example : (Price.mk (-1)).render = "-0.0001" := by decide

/-- The text of a price tells its ticks. -/
theorem render_inj {p q : Price} : p.render = q.render ↔ p = q := by
  refine ⟨fun h => ?_, congrArg render⟩
  rw [render_eq_text, render_eq_text, FixedPoint.text_inj] at h
  have hvalue : (p.ticks.toInt : ℚ) / 10000 = q.ticks.toInt / 10000 := by
    rw [← value_decimal, ← value_decimal, h]
  have hticks : p.ticks.toInt = q.ticks.toInt := by
    exact_mod_cast (div_left_inj' (by norm_num)).1 hvalue
  cases p; cases q
  exact congrArg Price.mk (Int64.toInt_inj.1 hticks)

/-- A blank is no part of a price. -/
theorem blank_notMem_render (p : Price) : ' ' ∉ p.render.toList := by
  rw [render_eq_text]
  intro hmem
  rcases FixedPoint.mem_text hmem with hminus | hpoint | hdigit
  · exact absurd hminus (by decide)
  · exact absurd hpoint (by decide)
  · exact absurd hdigit (by decide)

end Price
end TopOfBook
