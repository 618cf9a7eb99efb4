import Mathlib.Algebra.Ring.Nat
import Std.Data.ExtTreeMap

/-! Ordered maps seen as the list of their entries. An insertion of a new key and an erasure
move one entry, and so change a sum over the entries by that one; both commute with keeping only
some of the entries. The entries at the two ends of a map are the ends of the list. -/

namespace TopOfBook.OrderedMap

open Std

section Perm

variable {K V : Type} {cmp : K → K → Ordering} [TransCmp cmp] [LawfulEqCmp cmp]

theorem toList_nodup (m : ExtTreeMap K V cmp) : m.toList.Nodup := by
  refine m.distinct_keys_toList.imp ?_
  rintro a b hab rfl
  exact hab ReflCmp.compare_self

theorem toList_insert_perm (m : ExtTreeMap K V cmp) {k : K} (v : V) (hk : m[k]? = none) :
    (m.insert k v).toList.Perm ((k, v) :: m.toList) := by
  have hn : (k, v) ∉ m.toList := by
    rw [ExtTreeMap.mem_toList_iff_getElem?_eq_some, hk]
    simp
  rw [List.perm_ext_iff_of_nodup (toList_nodup _) (List.nodup_cons.2 ⟨hn, toList_nodup m⟩)]
  rintro ⟨a, b⟩
  simp only [ExtTreeMap.mem_toList_iff_getElem?_eq_some, ExtTreeMap.getElem?_insert,
    LawfulEqCmp.compare_eq_iff_eq, List.mem_cons, Prod.mk.injEq]
  by_cases ha : k = a
  · subst ha
    rw [if_pos ReflCmp.compare_self, hk]
    simp [eq_comm]
  · rw [if_neg (mt LawfulEqCmp.eq_of_compare ha)]
    simp [Ne.symm ha]

theorem insert_insert (m : ExtTreeMap K V cmp) (k : K) (v v' : V) :
    (m.insert k v).insert k v' = m.insert k v' := by
  apply ExtTreeMap.ext_getElem?
  intro a
  simp only [ExtTreeMap.getElem?_insert]
  split <;> rfl

theorem insert_erase (m : ExtTreeMap K V cmp) (k : K) (v : V) :
    (m.erase k).insert k v = m.insert k v := by
  apply ExtTreeMap.ext_getElem?
  intro a
  simp only [ExtTreeMap.getElem?_insert, ExtTreeMap.getElem?_erase]
  split <;> rfl

theorem erase_insert (m : ExtTreeMap K V cmp) (k : K) (v : V) :
    (m.insert k v).erase k = m.erase k := by
  apply ExtTreeMap.ext_getElem?
  intro a
  simp only [ExtTreeMap.getElem?_insert, ExtTreeMap.getElem?_erase]
  split <;> rfl

theorem insert_of_some (m : ExtTreeMap K V cmp) {k : K} {v : V} (hk : m[k]? = some v) :
    m.insert k v = m := by
  apply ExtTreeMap.ext_getElem?
  intro a
  rw [ExtTreeMap.getElem?_insert]
  split
  · rw [← LawfulEqCmp.eq_of_compare ‹cmp k a = .eq›, hk]
  · rfl

theorem toList_erase_perm (m : ExtTreeMap K V cmp) {k : K} {v : V} (hk : m[k]? = some v) :
    m.toList.Perm ((k, v) :: (m.erase k).toList) := by
  have hperm := toList_insert_perm (m.erase k) v ExtTreeMap.getElem?_erase_self
  rwa [insert_erase, insert_of_some m hk] at hperm

theorem erase_of_none (m : ExtTreeMap K V cmp) {k : K} (hk : m[k]? = none) : m.erase k = m := by
  apply ExtTreeMap.ext_getElem?
  intro a
  rw [ExtTreeMap.getElem?_erase]
  split
  · rename_i ha
    rw [← LawfulEqCmp.eq_of_compare ha, hk]
  · rfl

/-- A sum over the entries of a map, less the entry at a key. -/
theorem sum_erase (m : ExtTreeMap K V cmp) (k : K) (f : K → V → Nat) :
    (m.toList.map fun x => f x.1 x.2).sum =
      m[k]?.elim 0 (f k) + ((m.erase k).toList.map fun x => f x.1 x.2).sum := by
  cases hk : m[k]? with
  | none => rw [erase_of_none m hk, Option.elim_none, Nat.zero_add]
  | some v => exact ((toList_erase_perm m hk).map _).sum_nat

theorem sum_insert (m : ExtTreeMap K V cmp) (k : K) (v : V) (f : K → V → Nat) :
    ((m.insert k v).toList.map fun x => f x.1 x.2).sum =
      f k v + ((m.erase k).toList.map fun x => f x.1 x.2).sum := by
  rw [← insert_erase]
  exact ((toList_insert_perm (m.erase k) v ExtTreeMap.getElem?_erase_self).map _).sum_nat

end Perm

/-! ### Keeping only some entries -/

section Filter

variable {K V : Type} {cmp : K → K → Ordering} [TransCmp cmp] [LawfulEqCmp cmp]
  (m : ExtTreeMap K V cmp) (keep : K → V → Bool) {k : K}

theorem filter_empty : (∅ : ExtTreeMap K V cmp).filter keep = ∅ := by
  apply ExtTreeMap.ext_getElem?
  intro a
  rw [ExtTreeMap.getElem?_filter', ExtTreeMap.getElem?_empty, Option.filter_none]

theorem filter_insert_of_keep {v : V} (hv : keep k v = true) :
    (m.insert k v).filter keep = (m.filter keep).insert k v := by
  apply ExtTreeMap.ext_getElem?
  intro a
  simp only [ExtTreeMap.getElem?_filter', ExtTreeMap.getElem?_insert,
    LawfulEqCmp.compare_eq_iff_eq]
  by_cases ha : k = a
  · subst ha
    simp [hv]
  · simp [ha]

/-- Neither the entry that comes nor the one that goes is kept. -/
theorem filter_insert_of_drop {v : V} (hv : keep k v = false)
    (hk : ∀ w, m[k]? = some w → keep k w = false) : (m.insert k v).filter keep = m.filter keep := by
  apply ExtTreeMap.ext_getElem?
  intro a
  simp only [ExtTreeMap.getElem?_filter', ExtTreeMap.getElem?_insert,
    LawfulEqCmp.compare_eq_iff_eq]
  by_cases ha : k = a
  · subst ha
    cases hm : m[k]? with
    | none => simp [hv]
    | some w => simp [Option.filter, hv, hk w hm]
  · simp [ha]

theorem filter_erase : (m.erase k).filter keep = (m.filter keep).erase k := by
  apply ExtTreeMap.ext_getElem?
  intro a
  simp only [ExtTreeMap.getElem?_filter', ExtTreeMap.getElem?_erase]
  split <;> simp

theorem filter_erase_of_drop (hk : ∀ w, m[k]? = some w → keep k w = false) :
    (m.erase k).filter keep = m.filter keep := by
  apply ExtTreeMap.ext_getElem?
  intro a
  simp only [ExtTreeMap.getElem?_filter', ExtTreeMap.getElem?_erase,
    LawfulEqCmp.compare_eq_iff_eq]
  by_cases ha : k = a
  · subst ha
    cases hm : m[k]? with
    | none => simp
    | some w => simp [Option.filter, hk w hm]
  · simp [ha]

end Filter

/-! ### The ends of a map -/

section Ends

open Std.DTreeMap.Internal

private theorem minEntry?_model {K V : Type} :
    ∀ t : Impl K fun _ => V,
      Impl.Const.minEntry? t = t.toListModel.head?.map fun e => (e.1, e.2)
  | .leaf => by simp [Impl.Const.minEntry?]
  | .inner _ k v .leaf r => by simp [Impl.Const.minEntry?]
  | .inner _ k v (.inner n a b l r') r => by
    rw [Impl.Const.minEntry?, minEntry?_model (.inner n a b l r')]
    simp

private theorem maxEntry?_model {K V : Type} :
    ∀ t : Impl K fun _ => V,
      Impl.Const.maxEntry? t = t.toListModel.getLast?.map fun e => (e.1, e.2)
  | .leaf => by simp [Impl.Const.maxEntry?]
  | .inner _ k v l .leaf => by simp [Impl.Const.maxEntry?]
  | .inner _ k v l (.inner n a b l' r) => by
    rw [Impl.Const.maxEntry?, maxEntry?_model (.inner n a b l' r)]
    simp [List.getLast?_append, List.getLast?_cons]

variable {K V : Type} {cmp : K → K → Ordering} [TransCmp cmp] (m : ExtTreeMap K V cmp)

theorem minEntry?_eq_head? : m.minEntry? = m.toList.head? := by
  rcases m with ⟨⟨q⟩⟩
  induction q using Quotient.ind with
  | _ t =>
    change Impl.Const.minEntry? t.inner = (Impl.Const.toList t.inner).head?
    rw [minEntry?_model, Impl.Const.toList_eq_toListModel_map, List.head?_map]

theorem maxEntry?_eq_getLast? : m.maxEntry? = m.toList.getLast? := by
  rcases m with ⟨⟨q⟩⟩
  induction q using Quotient.ind with
  | _ t =>
    change Impl.Const.maxEntry? t.inner = (Impl.Const.toList t.inner).getLast?
    rw [maxEntry?_model, Impl.Const.toList_eq_toListModel_map, List.getLast?_map]

end Ends

end TopOfBook.OrderedMap
