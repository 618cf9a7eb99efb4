import Mathlib.Algebra.Ring.Nat
import TopOfBook.Market.Quantity

/-! Adding and taking away quantities, read in natural numbers. -/

namespace TopOfBook.Quantity

theorem toNat_inj {a b : Quantity} (h : a.toNat = b.toNat) : a = b := by
  cases a; cases b
  exact congrArg Quantity.mk (UInt64.toNat_inj.1 h)

theorem toNat_le_maximum (q : Quantity) : q.toNat ≤ maximum := by
  have := UInt64.toNat_lt_size q.shares
  simp only [toNat, maximum]
  omega

@[simp] theorem toNat_zero : zero.toNat = 0 := rfl

theorem isZero_iff {q : Quantity} : q.isZero = true ↔ q.toNat = 0 := by
  simp only [isZero, toNat, beq_iff_eq]
  exact UInt64.toNat_inj.symm

theorem isZero_eq_false_iff {q : Quantity} : q.isZero = false ↔ 0 < q.toNat := by
  rw [Nat.pos_iff_ne_zero, ne_eq, ← isZero_iff, Bool.not_eq_true]

theorem add?_eq_some_iff {a b c : Quantity} : a.add? b = some c ↔ c.toNat = a.toNat + b.toNat := by
  have hc := toNat_le_maximum c
  have hs : UInt64.size = 2 ^ 64 := rfl
  by_cases h : a.toNat + b.toNat ≤ maximum
  · have hab : (⟨a.shares + b.shares⟩ : Quantity).toNat = a.toNat + b.toNat := by
      simp only [toNat, maximum, UInt64.toNat_add, hs] at h ⊢
      omega
    rw [add?, if_pos h, Option.some.injEq, ← hab]
    exact ⟨fun e => e ▸ rfl, fun e => toNat_inj e.symm⟩
  · rw [add?, if_neg h]
    simp only [reduceCtorEq, false_iff]
    omega

theorem add?_eq_none_iff {a b : Quantity} : a.add? b = none ↔ maximum < a.toNat + b.toNat := by
  unfold add?
  split <;> simp <;> omega

theorem sub?_eq_some_iff {a b c : Quantity} : a.sub? b = some c ↔ c.toNat + b.toNat = a.toNat := by
  by_cases h : b.toNat ≤ a.toNat
  · have hab : (⟨a.shares - b.shares⟩ : Quantity).toNat = a.toNat - b.toNat :=
      UInt64.toNat_sub_of_le _ _ (UInt64.le_iff_toNat_le.2 h)
    rw [sub?, if_pos h, Option.some.injEq]
    constructor
    · rintro rfl
      omega
    · intro e
      exact toNat_inj (by omega)
  · rw [sub?, if_neg h]
    simp only [reduceCtorEq, false_iff]
    omega

theorem sub?_eq_none_iff {a b : Quantity} : a.sub? b = none ↔ a.toNat < b.toNat := by
  unfold sub?
  split <;> simp <;> omega

/-- A quantity that is not too large leaves a rest. -/
theorem exists_rest {a b : Quantity} (h : b.toNat ≤ a.toNat) :
    ∃ rest : Quantity, rest.toNat + b.toNat = a.toNat := by
  cases hs : a.sub? b with
  | none =>
    rw [sub?_eq_none_iff] at hs
    omega
  | some rest => exact ⟨rest, sub?_eq_some_iff.1 hs⟩

/-! ### Totals -/

@[simp] theorem total_nil : total [] = 0 := rfl

@[simp] theorem total_cons (q : Quantity) (l : List Quantity) :
    total (q :: l) = q.toNat + total l := rfl

theorem total_eq_sum (l : List Quantity) : total l = (l.map toNat).sum := by
  induction l with
  | nil => rfl
  | cons q l ih => rw [total_cons, List.map_cons, List.sum_cons, ih]

theorem le_total {q : Quantity} {l : List Quantity} (h : q ∈ l) : q.toNat ≤ total l := by
  induction l with
  | nil => cases h
  | cons a l ih =>
    rw [total_cons]
    rcases List.mem_cons.1 h with rfl | h
    · omega
    · have := ih h
      omega

end TopOfBook.Quantity
