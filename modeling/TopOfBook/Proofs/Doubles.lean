import Mathlib.Algebra.Order.Field.Power
import Mathlib.Data.Rat.Floor
import Mathlib.Order.WithBot
import Mathlib.Tactic.Linarith
import Mathlib.Tactic.Positivity
import TopOfBook.Histogram.Scalar

/-! Doubles compare as the numbers that they stand for: the rational numbers, with an infinity at
either end. One double stands for no number, and compares with nothing. -/

namespace TopOfBook

namespace Double

open Float.Model (UnpackedFloat Format)
open Float.Model.UnpackedFloat (Sign)

/-- The number with the given sign, digits and binary exponent. -/
def signed (s : Sign) (m : Nat) (e : Int) : ℚ := (s.apply m : ℤ) * 2 ^ e

/-- What a double stands for, by its parts. -/
def ofParts : UnpackedFloat → Option (WithBot (WithTop ℚ))
  | .notANumber => none
  | .infinity .negative => some ⊥
  | .infinity .positive => some ⊤
  | .zero _ => some ((0 : ℚ) : WithTop ℚ)
  | .finite s m e _ => some ((signed s m e : ℚ) : WithTop ℚ)

def value? (x : Float) : Option (WithBot (WithTop ℚ)) := ofParts x.toModel.unpack

/-! ### The digits of a double -/

/-- As many digits as a double keeps, the first of them not zero unless the exponent is the
least. -/
structure Canonical (m : Nat) (e : Int) : Prop where
  lt : m < 2 ^ 53
  least_le : -1074 ≤ e
  le : -1074 < e → 2 ^ 52 ≤ m

theorem canonical_of_unpack {x : Float} {s : Sign} {m : Nat} {e : Int} {hm : 0 < m}
    (h : x.toModel.unpack = .finite s m e hm) : Canonical m e := by
  have hbias : (Format.binary64.exponentBias : Int) +
      Format.binary64.mantissaBitsWithoutImplicit = 1075 := rfl
  have hleading (d : BitVec 52) : (1#1 ++ d).toNat = 2 ^ 52 + d.toNat := by
    rw [BitVec.toNat_append, ← Nat.shiftLeft_add_eq_or_of_lt d.isLt]
    rfl
  have hdigits : (@UnpackedFloat.unpackMantissa .binary64
    x.toModel.toBits.toBitVec).toNat < 2 ^ 52 := BitVec.isLt _
  unfold Float.Model.unpack UnpackedFloat.unpack at h
  dsimp only at h hbias
  rw [hbias] at h
  rcases ite_eq_iff.1 h with ⟨-, h⟩ | ⟨-, h⟩
  · rcases ite_eq_iff.1 h with ⟨-, h⟩ | ⟨-, h⟩ <;> cases h
  rcases ite_eq_iff.1 h with ⟨hleast, h⟩ | ⟨hleast, h⟩
  · have hfield := congrArg BitVec.toNat hleast
    rw [BitVec.toNat_zero] at hfield
    rcases dite_eq_iff.1 h with ⟨_, h⟩ | ⟨_, h⟩ <;> cases h
    constructor <;> omega
  · -- only here a leading one goes before the digits that are stored
    have hfield : (@UnpackedFloat.unpackExponent .binary64
        x.toModel.toBits.toBitVec).toNat ≠ 0 := fun hz => hleast (BitVec.eq_of_toNat_eq hz)
    cases h
    refine ⟨?_, by omega, fun _ => ?_⟩ <;> rw [hleading] <;> omega

/-! ### Comparing -/

section Compare

variable {m n : Nat} {e f : Int} {hm : 0 < m} {hn : 0 < n}

theorem signed_negative (m : Nat) (e : Int) : signed .negative m e = -signed .positive m e := by
  simp [signed, Sign.apply]

theorem signed_pos (hm : 0 < m) (e : Int) : 0 < signed .positive m e := by
  have hpos : (0 : ℚ) < m := Nat.cast_pos.2 hm
  simp only [signed, Sign.apply, Int.cast_natCast]
  positivity

/-- A larger exponent makes a larger number, whatever the digits. -/
theorem signed_lt_of_exponent_lt (cm : Canonical m e) (cn : Canonical n f) (hef : e < f) :
    signed .positive m e < signed .positive n f := by
  have hlt : (m : ℚ) < 2 ^ 53 := by exact_mod_cast cm.lt
  have hle : (2 : ℚ) ^ 52 ≤ n := by exact_mod_cast cn.le (cm.least_le.trans_lt hef)
  have hpow (k : Nat) (e : Int) : (2 : ℚ) ^ (k + e) = 2 ^ k * 2 ^ e := by
    rw [zpow_add₀ two_ne_zero, zpow_natCast]
  simp only [signed, Sign.apply, Int.cast_natCast]
  calc (m : ℚ) * 2 ^ e < 2 ^ 53 * 2 ^ e := mul_lt_mul_of_pos_right hlt (by positivity)
    _ = 2 ^ ((53 : Nat) + e) := (hpow 53 e).symm
    _ ≤ 2 ^ ((52 : Nat) + f) := zpow_le_zpow_right₀ one_le_two (by omega)
    _ = 2 ^ 52 * 2 ^ f := hpow 52 f
    _ ≤ n * 2 ^ f := mul_le_mul_of_nonneg_right hle (by positivity)

theorem signed_le_iff (cm : Canonical m e) (cn : Canonical n f) :
    signed .positive m e ≤ signed .positive n f ↔
      ((compare e f).then (compare m n)).isLE = true := by
  rw [Ordering.isLE_then_iff_or, compare_lt_iff_lt, compare_eq_iff_eq, Nat.isLE_compare]
  rcases lt_trichotomy e f with hlt | rfl | hgt
  · exact iff_of_true (signed_lt_of_exponent_lt cm cn hlt).le (.inl hlt)
  · have hpos : (0 : ℚ) < 2 ^ e := by positivity
    simp [signed, Sign.apply, hpos]
  · refine iff_of_false (signed_lt_of_exponent_lt cn cm hgt).not_ge ?_
    omega

theorem finite_le_finite_iff (s t : Sign) (cm : Canonical m e) (cn : Canonical n f) :
    UnpackedFloat.le (.finite s m e hm) (.finite t n f hn) = true ↔
      signed s m e ≤ signed t n f := by
  have hfirst := signed_pos hm e
  have hsecond := signed_pos hn f
  cases s with
  | positive =>
    cases t with
    | positive => exact (signed_le_iff cm cn).symm
    | negative =>
      rw [signed_negative]
      exact iff_of_false nofun (by linarith)
  | negative =>
    rw [signed_negative]
    cases t with
    | positive => exact iff_of_true rfl (by linarith)
    | negative =>
      rw [signed_negative, neg_le_neg_iff, signed_le_iff cn cm, ← Ordering.isGE_swap,
        Ordering.swap_then, ← Std.OrientedCmp.eq_swap, ← Std.OrientedCmp.eq_swap,
        ← Ordering.isLE_swap]
      rfl

theorem finite_le_zero_iff (s t : Sign) :
    UnpackedFloat.le (.finite s m e hm) (.zero t) = true ↔ signed s m e ≤ 0 := by
  have hpos := signed_pos hm e
  cases s with
  | positive => exact iff_of_false nofun hpos.not_ge
  | negative => exact iff_of_true rfl (by rw [signed_negative]; linarith)

theorem zero_le_finite_iff (s t : Sign) :
    UnpackedFloat.le (.zero t) (.finite s m e hm) = true ↔ 0 ≤ signed s m e := by
  have hpos := signed_pos hm e
  cases s with
  | positive => exact iff_of_true rfl hpos.le
  | negative => exact iff_of_false nofun (by rw [signed_negative]; linarith)

theorem exists_parts_iff {u v : UnpackedFloat} {x y : WithBot (WithTop ℚ)}
    (hx : ofParts u = some x) (hy : ofParts v = some y) :
    (∃ x y, ofParts u = some x ∧ ofParts v = some y ∧ x ≤ y) ↔ x ≤ y := by
  simp [hx, hy]

theorem not_exists_parts (u : UnpackedFloat) :
    ¬ ∃ x y, ofParts u = some x ∧ ofParts .notANumber = some y ∧ x ≤ y := by
  rintro ⟨_, _, -, ⟨⟩, -⟩

theorem parts_le_iff {u v : UnpackedFloat}
    (hu : ∀ s m e hm, u = .finite s m e hm → Canonical m e)
    (hv : ∀ s m e hm, v = .finite s m e hm → Canonical m e) :
    u.le v = true ↔ ∃ x y, ofParts u = some x ∧ ofParts v = some y ∧ x ≤ y := by
  have hcoe (p q : ℚ) : ((p : WithTop ℚ) : WithBot (WithTop ℚ)) ≤ (q : WithTop ℚ) ↔ p ≤ q := by
    rw [WithBot.coe_le_coe, WithTop.coe_le_coe]
  have htop (q : ℚ) : ¬ (⊤ : WithBot (WithTop ℚ)) ≤ (q : WithTop ℚ) := by simp
  have hbot (q : WithTop ℚ) : ¬ (q : WithBot (WithTop ℚ)) ≤ ⊥ := by simp
  rcases u with (_ | _) | _ | s | ⟨s, m, e, hm⟩
  · -- what is below all numbers
    rcases v with (_ | _) | _ | _ | _
    case notANumber => exact iff_of_false nofun (not_exists_parts _)
    all_goals exact iff_of_true rfl ⟨_, _, rfl, rfl, bot_le⟩
  · -- what is above all numbers
    rcases v with (_ | _) | _ | _ | _
    · exact iff_of_false nofun ((exists_parts_iff rfl rfl).not.2 (hbot ⊤))
    · exact iff_of_true rfl ⟨_, _, rfl, rfl, le_rfl⟩
    · exact iff_of_false nofun (not_exists_parts _)
    · exact iff_of_false nofun ((exists_parts_iff rfl rfl).not.2 (htop 0))
    · exact iff_of_false nofun ((exists_parts_iff rfl rfl).not.2 (htop _))
  · exact iff_of_false nofun fun ⟨_, _, hx, _⟩ => nomatch hx
  · rcases v with (_ | _) | _ | t | ⟨t, n, f, hn⟩
    · exact iff_of_false nofun ((exists_parts_iff rfl rfl).not.2 (hbot _))
    · exact iff_of_true rfl ⟨_, _, rfl, rfl, le_top⟩
    · exact iff_of_false nofun (not_exists_parts _)
    · exact iff_of_true rfl ⟨_, _, rfl, rfl, le_rfl⟩
    · rw [exists_parts_iff rfl rfl, hcoe]
      exact zero_le_finite_iff t s
  · rcases v with (_ | _) | _ | t | ⟨t, n, f, hn⟩
    · exact iff_of_false nofun ((exists_parts_iff rfl rfl).not.2 (hbot _))
    · exact iff_of_true rfl ⟨_, _, rfl, rfl, le_top⟩
    · exact iff_of_false nofun (not_exists_parts _)
    · rw [exists_parts_iff rfl rfl, hcoe]
      exact finite_le_zero_iff s t
    · rw [exists_parts_iff rfl rfl, hcoe]
      exact finite_le_finite_iff s t (hu _ _ _ _ rfl) (hv _ _ _ _ rfl)

end Compare

theorem le_iff (a b : Float) :
    a ≤ b ↔ ∃ x y, value? a = some x ∧ value? b = some y ∧ x ≤ y := by
  have hle : a ≤ b ↔ a.toModel.unpack.le b.toModel.unpack = true := by
    change decide (a.toModel ≤ b.toModel) = true ↔ _
    rw [decide_eq_true_eq]
    rfl
  exact hle.trans (parts_le_iff (fun _ _ _ _ => canonical_of_unpack)
    fun _ _ _ _ => canonical_of_unpack)

theorem value?_eq_none_iff (a : Float) : value? a = none ↔ a.isNaN = true := by
  change ofParts a.toModel.unpack = none ↔ a.toModel.unpack.isNaN = true
  rcases a.toModel.unpack with (_ | _) | _ | _ | _
  · exact iff_of_false nofun nofun
  · exact iff_of_false nofun nofun
  · exact iff_of_true rfl rfl
  · exact iff_of_false nofun nofun
  · exact iff_of_false nofun nofun

theorem value?_zero : value? (Scalar.ofCount 0) = some 0 := rfl

theorem value?_one : value? (Scalar.ofCount 1) = some 1 := by
  have hone : signed .positive (2 ^ 52) (-52) = 1 := by norm_num [signed, Sign.apply]
  change some (((signed .positive (2 ^ 52) (-52) : ℚ) : WithTop ℚ) : WithBot (WithTop ℚ)) = _
  rw [hone]
  rfl

end Double
end TopOfBook
