import TopOfBook.Order.Table
import TopOfBook.Proofs.OrderedMap
import TopOfBook.Proofs.Shares

/-! The table of live orders. Every operation that changes it puts one order at one number, so
shares move by what that order held before and holds afterwards. What the table says about an
order does not depend on the orders of other instruments, as long as the number is not theirs. -/

namespace TopOfBook

/-- Whether the fault lies with a level of the book, and not with the orders. -/
def BookFault.isOfLevel : BookFault → Bool
  | levelShortage .. | levelOverflow .. => true
  | _ => false

namespace OrderTable

variable {t t' : OrderTable} {id id' : OrderId} {o : Order} {r : Reduction}

/-- Every order is stored under its own number and has shares left. -/
structure Sound (t : OrderTable) : Prop where
  own : ∀ id o, t.find? id = some o → o.id = id
  positive : ∀ id o, t.find? id = some o → 0 < o.quantity.toNat

theorem mem_toList : o ∈ t.toList ↔ ∃ id, t.find? id = some o := by
  rw [toList, List.mem_map]
  constructor
  · rintro ⟨⟨id, o'⟩, h, rfl⟩
    exact ⟨id, Std.ExtTreeMap.mem_toList_iff_getElem?_eq_some.1 h⟩
  · rintro ⟨id, h⟩
    exact ⟨(id, o), Std.ExtTreeMap.mem_toList_iff_getElem?_eq_some.2 h, rfl⟩

theorem Sound.mem_toList (ht : t.Sound) : o ∈ t.toList ↔ t.find? o.id = some o := by
  rw [OrderTable.mem_toList]
  constructor
  · rintro ⟨id, h⟩
    rw [ht.own id o h, h]
  · exact fun h => ⟨_, h⟩

theorem contains_eq_isSome (t : OrderTable) (id : OrderId) :
    t.contains id = (t.find? id).isSome := by
  rw [contains, find?, Std.ExtTreeMap.contains_eq_isSome_getElem?]

theorem ext_find? (h : ∀ id, t.find? id = t'.find? id) : t = t' := by
  cases t; cases t'
  exact congrArg OrderTable.mk (Std.ExtTreeMap.ext_getElem? h)

@[simp] theorem find?_empty (id : OrderId) : empty.find? id = none := by
  simp [empty, find?]

theorem sound_empty : empty.Sound :=
  ⟨fun id o h => by simp at h, fun id o h => by simp at h⟩

/-! ### Putting an order -/

/-- Puts an order at a number, or takes what is there away when the order has no shares. -/
def put (t : OrderTable) (id : OrderId) (o : Order) : OrderTable :=
  ⟨if o.quantity.isZero then t.byId.erase id else t.byId.insert id o⟩

theorem find?_put (t : OrderTable) (id id' : OrderId) (o : Order) :
    (t.put id o).find? id' =
      if id' = id then (if o.quantity.isZero then none else some o) else t.find? id' := by
  unfold put find?
  by_cases hne : id' = id
  · subst hne
    split <;> simp
  · split
    · rw [Std.ExtTreeMap.getElem?_erase]
      simp [Ne.symm hne]
    · rw [Std.ExtTreeMap.getElem?_insert]
      simp [Ne.symm hne]

/-- An order that was live next to one taken off was live before. -/
theorem find?_of_put_zero {o' : Order}
    (h : (t.put id { o with quantity := .zero }).find? id' = some o') : t.find? id' = some o' := by
  rw [find?_put] at h
  split at h
  · cases h
  · exact h

theorem find?_put_zero_of_free (hfree : t.find? id' = none) (o : Order) :
    (t.put id { o with quantity := .zero }).find? id' = none := by
  rw [find?_put]
  split
  · rfl
  · exact hfree

theorem Sound.put (ht : t.Sound) (ho : o.id = id) : (t.put id o).Sound := by
  have key : ∀ id' o', (t.put id o).find? id' = some o' →
      (id' = id ∧ o' = o ∧ 0 < o.quantity.toNat) ∨ t.find? id' = some o' := by
    intro id' o' h
    rw [find?_put] at h
    split at h
    · cases hq : o.quantity.isZero with
      | true => simp [hq] at h
      | false =>
        simp only [hq, Bool.false_eq_true, if_false, Option.some.injEq] at h
        exact .inl ⟨‹_›, h.symm, Quantity.isZero_eq_false_iff.1 hq⟩
    · exact .inr h
  constructor
  · intro id' o' h
    rcases key id' o' h with ⟨rfl, rfl, -⟩ | h
    · exact ho
    · exact ht.own id' o' h
  · intro id' o' h
    rcases key id' o' h with ⟨rfl, rfl, hpos⟩ | h
    · exact hpos
    · exact ht.positive id' o' h

/-- Putting back what is there changes nothing. -/
theorem put_self (ht : t.Sound) (h : t.find? id = some o) : t.put id o = t := by
  apply ext_find?
  intro id'
  rw [find?_put]
  split
  · rw [Quantity.isZero_eq_false_iff.2 (ht.positive id o h), ‹id' = id›, h]
    rfl
  · rfl

/-- What was put at the number before does not matter. -/
theorem put_put (t : OrderTable) (id : OrderId) (o o' : Order) :
    (t.put id o).put id o' = t.put id o' := by
  apply ext_find?
  intro id'
  rw [find?_put, find?_put, find?_put]
  split <;> rfl

/-- There is nothing to take away at a free number. -/
theorem put_of_free (hfree : t.find? id = none) (ho : o.quantity.isZero = true) :
    t.put id o = t := by
  apply ext_find?
  intro id'
  rw [find?_put]
  split
  · rw [‹id' = id›, hfree]
  · rfl

theorem register_eq_ok_iff : t.register o = .ok t' ↔
    o.quantity.isZero = false ∧ t.find? o.id = none ∧ t' = t.put o.id o := by
  rw [register, contains_eq_isSome]
  cases hq : o.quantity.isZero with
  | true => simp
  | false =>
    cases hf : t.find? o.id with
    | none => simp [put, hq, eq_comm]
    | some o' => simp

theorem lookup_eq_ok_iff : t.lookup id = .ok o ↔ t.find? id = some o := by
  unfold lookup
  cases t.find? id <;> simp

/-- Some of the shares are taken off an order, or all of them when no quantity is given. -/
def take (t : OrderTable) (id : OrderId) (quantity : Option Quantity) :
    Except BookFault (OrderTable × Reduction) :=
  quantity.elim (t.remove id) (t.reduce id)

/-- Shares come off an order that has as many, and it is put back with the rest. -/
theorem take_eq_ok_iff {quantity : Option Quantity} (hf : t.find? id = some o) :
    t.take id quantity = .ok (t', r) ↔
      ∃ rest : Quantity, rest.toNat + (quantity.getD o.quantity).toNat = o.quantity.toNat ∧
        t' = t.put id { o with quantity := rest } ∧
        r = ⟨{ o with quantity := rest }, quantity.getD o.quantity, rest.isZero⟩ := by
  cases quantity with
  | none =>
    simp only [take, Option.elim_none, remove, hf, Except.ok.injEq, Prod.mk.injEq,
      Option.getD_none]
    constructor
    · rintro ⟨rfl, rfl⟩
      exact ⟨.zero, by simp, rfl, rfl⟩
    · rintro ⟨rest, hrest, rfl, rfl⟩
      obtain rfl : rest = .zero := Quantity.toNat_inj (by rw [Quantity.toNat_zero]; omega)
      exact ⟨rfl, rfl⟩
  | some q =>
    simp only [take, Option.elim_some, reduce, hf, Option.getD_some]
    cases hs : o.quantity.sub? q with
    | none =>
      rw [Quantity.sub?_eq_none_iff] at hs
      simp only [reduceCtorEq, false_iff]
      rintro ⟨rest, hrest, -⟩
      omega
    | some rest =>
      rw [Quantity.sub?_eq_some_iff] at hs
      have hput : (if rest.isZero then Except.ok (⟨t.byId.erase id⟩,
            ⟨{ o with quantity := rest }, q, true⟩)
          else .ok (⟨t.byId.insert id { o with quantity := rest }⟩,
            ⟨{ o with quantity := rest }, q, false⟩) : Except BookFault (OrderTable × Reduction)) =
            .ok (t.put id { o with quantity := rest },
              ⟨{ o with quantity := rest }, q, rest.isZero⟩) := by
        unfold put
        cases rest.isZero <;> rfl
      simp only [hput, Except.ok.injEq, Prod.mk.injEq]
      constructor
      · rintro ⟨rfl, rfl⟩
        exact ⟨rest, hs, rfl, rfl⟩
      · rintro ⟨rest', hrest, rfl, rfl⟩
        obtain rfl : rest' = rest := Quantity.toNat_inj (by omega)
        exact ⟨rfl, rfl⟩

theorem remove_eq_ok (hf : t.find? id = some o) (h : t.remove id = .ok (t', r)) :
    r.reduced = o.quantity ∧ t' = t.put id { o with quantity := .zero } := by
  simp only [remove, hf, Except.ok.injEq, Prod.mk.injEq] at h
  obtain ⟨rfl, rfl⟩ := h
  exact ⟨rfl, rfl⟩

/-! ### Faults of orders -/

theorem isOfLevel_of_lookup {fault : BookFault} (h : t.lookup id = .error fault) :
    fault.isOfLevel = false := by
  unfold lookup at h
  split at h
  · cases h
    rfl
  · cases h

theorem isOfLevel_of_register {fault : BookFault} (h : t.register o = .error fault) :
    fault.isOfLevel = false := by
  unfold register at h
  split at h
  · cases h
    rfl
  · split at h
    · cases h
      rfl
    · cases h

theorem isOfLevel_of_take {fault : BookFault} {quantity : Option Quantity}
    (h : t.take id quantity = .error fault) : fault.isOfLevel = false := by
  cases quantity with
  | none =>
    simp only [take, Option.elim_none, remove] at h
    split at h
    · cases h
      rfl
    · cases h
  | some q =>
    simp only [take, Option.elim_some, reduce] at h
    split at h
    · cases h
      rfl
    · split at h
      · cases h
        rfl
      · split at h <;> cases h

/-! ### Shares -/

/-- The shares left on the orders that are counted. -/
def sharesWhere (t : OrderTable) (counted : Order → Bool) : Nat :=
  Quantity.total ((t.toList.filter counted).map Order.quantity)

/-- The shares of an order that is counted, if there is one. -/
def sharesOf (counted : Order → Bool) : Option Order → Nat
  | none => 0
  | some o => if counted o then o.quantity.toNat else 0

theorem le_sharesWhere {counted : Order → Bool} (h : t.find? id = some o) (ho : counted o = true) :
    o.quantity.toNat ≤ t.sharesWhere counted := by
  apply Quantity.le_total
  exact List.mem_map.2 ⟨o, List.mem_filter.2 ⟨mem_toList.2 ⟨id, h⟩, ho⟩, rfl⟩

private theorem sharesWhere_eq_sum (t : OrderTable) (counted : Order → Bool) :
    t.sharesWhere counted = (t.byId.toList.map fun x => sharesOf counted (some x.2)).sum := by
  unfold sharesWhere toList
  induction t.byId.toList with
  | nil => rfl
  | cons x l ih =>
    rw [List.map_cons, List.map_cons, List.sum_cons, ← ih, List.filter_cons, sharesOf]
    split <;> simp

private theorem sharesWhere_erase (t : OrderTable) (id : OrderId) (counted : Order → Bool) :
    t.sharesWhere counted =
      sharesOf counted (t.find? id) + (OrderTable.mk (t.byId.erase id)).sharesWhere counted := by
  have h := OrderedMap.sum_erase t.byId id fun _ o => sharesOf counted (some o)
  rw [← sharesWhere_eq_sum] at h
  rw [h, sharesWhere_eq_sum, find?]
  cases t.byId[id]? <;> rfl

private theorem sharesWhere_insert (t : OrderTable) (id : OrderId) (o : Order)
    (counted : Order → Bool) :
    (OrderTable.mk (t.byId.insert id o)).sharesWhere counted =
      sharesOf counted (some o) + (OrderTable.mk (t.byId.erase id)).sharesWhere counted := by
  rw [sharesWhere_eq_sum, sharesWhere_eq_sum]
  exact OrderedMap.sum_insert t.byId id o fun _ o => sharesOf counted (some o)

/-- Shares move by what the order at the number held and holds. -/
theorem sharesWhere_put (t : OrderTable) (id : OrderId) (o : Order) (counted : Order → Bool) :
    (t.put id o).sharesWhere counted + sharesOf counted (t.find? id) =
      t.sharesWhere counted + sharesOf counted (some o) := by
  have herase := sharesWhere_erase t id counted
  cases hq : o.quantity.isZero with
  | true =>
    have ho : sharesOf counted (some o) = 0 := by
      simp [sharesOf, Quantity.isZero_iff.1 hq]
    simp only [put, hq, if_true]
    omega
  | false =>
    have hinsert := sharesWhere_insert t id o counted
    simp only [put, hq, Bool.false_eq_true, if_false]
    omega

/-! ### The orders of some instruments -/

section Restrict

variable (keep : Instrument → Bool)

/-- Only the orders of the instruments that are kept. -/
def restrict (t : OrderTable) (keep : Instrument → Bool) : OrderTable :=
  ⟨t.byId.filter fun _ o => keep o.instrument⟩

theorem find?_restrict (t : OrderTable) (id : OrderId) :
    (t.restrict keep).find? id = (t.find? id).filter fun o => keep o.instrument :=
  Std.ExtTreeMap.getElem?_filter'

@[simp] theorem restrict_empty : empty.restrict keep = empty :=
  ext_find? fun id => by simp [find?_restrict]

theorem restrict_restrict (t : OrderTable) (keep' : Instrument → Bool) :
    (t.restrict keep).restrict keep' = t.restrict fun i => keep i && keep' i := by
  apply ext_find?
  intro id
  simp only [find?_restrict, Option.filter_filter]

theorem toList_restrict (t : OrderTable) :
    (t.restrict keep).toList = t.toList.filter fun o => keep o.instrument := by
  rw [toList, restrict, Std.ExtTreeMap.toList_filter, toList, List.filter_map]
  rfl

theorem Sound.restrict (ht : t.Sound) : (t.restrict keep).Sound := by
  constructor
  · intro id o h
    rw [find?_restrict, Option.filter_eq_some_iff] at h
    exact ht.own id o h.1
  · intro id o h
    rw [find?_restrict, Option.filter_eq_some_iff] at h
    exact ht.positive id o h.1

/-- Shares counted on kept instruments only are all there. -/
theorem sharesWhere_restrict {counted : Order → Bool}
    (h : ∀ o, counted o = true → keep o.instrument = true) :
    (t.restrict keep).sharesWhere counted = t.sharesWhere counted := by
  rw [sharesWhere, sharesWhere, toList_restrict, List.filter_filter]
  congr 2
  apply List.filter_congr
  intro o _
  cases hc : counted o <;> simp [h o, hc]

/-- Tables that agree on the kept instruments have the same shares there. -/
theorem sharesWhere_eq_of_restrict {counted : Order → Bool}
    (h : ∀ o, counted o = true → keep o.instrument = true)
    (ht : t'.restrict keep = t.restrict keep) : t'.sharesWhere counted = t.sharesWhere counted := by
  rw [← sharesWhere_restrict keep h, ht, sharesWhere_restrict keep h]

/-- Dropped instruments have no shares left. -/
theorem sharesWhere_restrict_of_drop {counted : Order → Bool}
    (h : ∀ o, counted o = true → keep o.instrument = false) :
    (t.restrict keep).sharesWhere counted = 0 := by
  rw [sharesWhere, toList_restrict, List.filter_filter, List.filter_eq_nil_iff.2]
  · rfl
  · intro o _
    cases hc : counted o <;> simp [h o, hc]

theorem purge_fst (t : OrderTable) (i : Instrument) :
    (t.purge i).1 = t.restrict fun j => decide (j ≠ i) := rfl

variable {keep}

/-- What becomes of an order that is not kept cannot be seen. -/
theorem restrict_put_of_drop (ho : keep o.instrument = false)
    (hf : ∀ o', t.find? id = some o' → keep o'.instrument = false) :
    (t.put id o).restrict keep = t.restrict keep := by
  unfold put restrict
  split
  · exact congrArg _ (OrderedMap.filter_erase_of_drop _ _ hf)
  · exact congrArg _ (OrderedMap.filter_insert_of_drop _ _ ho hf)

theorem find?_restrict_of_keep (hk : ∀ o, t.find? id = some o → keep o.instrument = true) :
    (t.restrict keep).find? id = t.find? id := by
  rw [find?_restrict]
  cases hf : t.find? id with
  | none => rfl
  | some o => simp [Option.filter, hk o hf]

theorem lookup_restrict (hk : ∀ o, t.find? id = some o → keep o.instrument = true) :
    (t.restrict keep).lookup id = t.lookup id := by
  rw [lookup, lookup, find?_restrict_of_keep hk]

theorem contains_restrict (hk : ∀ o, t.find? id = some o → keep o.instrument = true) :
    (t.restrict keep).contains id = t.contains id := by
  rw [contains_eq_isSome, contains_eq_isSome, find?_restrict_of_keep hk]

theorem register_restrict (ho : keep o.instrument = true)
    (hk : ∀ o', t.find? o.id = some o' → keep o'.instrument = true) :
    (t.restrict keep).register o = (t.register o).map fun t' => t'.restrict keep := by
  rw [register, register, contains_restrict hk]
  split
  · rfl
  · split
    · rfl
    · exact congrArg (fun m => Except.ok (OrderTable.mk m))
        (OrderedMap.filter_insert_of_keep _ _ ho).symm

theorem remove_restrict (hk : ∀ o, t.find? id = some o → keep o.instrument = true) :
    (t.restrict keep).remove id = (t.remove id).map fun (t', r) => (t'.restrict keep, r) := by
  rw [remove, remove, find?_restrict_of_keep hk]
  cases t.find? id with
  | none => rfl
  | some o =>
    exact congrArg (fun m => Except.ok (OrderTable.mk m, _)) (OrderedMap.filter_erase _ _).symm

theorem reduce_restrict {quantity : Quantity}
    (hk : ∀ o, t.find? id = some o → keep o.instrument = true) :
    (t.restrict keep).reduce id quantity =
      (t.reduce id quantity).map fun (t', r) => (t'.restrict keep, r) := by
  rw [reduce, reduce, find?_restrict_of_keep hk]
  cases hf : t.find? id with
  | none => rfl
  | some o =>
    simp only
    cases o.quantity.sub? quantity with
    | none => rfl
    | some rest =>
      simp only
      split
      · exact congrArg (fun m => Except.ok (OrderTable.mk m, _)) (OrderedMap.filter_erase _ _).symm
      · exact congrArg (fun m => Except.ok (OrderTable.mk m, _))
          (OrderedMap.filter_insert_of_keep _ _ (hk o hf)).symm

theorem take_restrict (quantity : Option Quantity)
    (hk : ∀ o, t.find? id = some o → keep o.instrument = true) :
    (t.restrict keep).take id quantity =
      (t.take id quantity).map fun (t', r) => (t'.restrict keep, r) := by
  cases quantity with
  | none => exact remove_restrict hk
  | some q => exact reduce_restrict hk

end Restrict

/-! ### Changes for one instrument -/

/-- Only orders of the instrument were put, and only at the given numbers. -/
inductive Edited (i : Instrument) (ids : List OrderId) (t : OrderTable) : OrderTable → Prop
  | refl : Edited i ids t t
  | put {t' : OrderTable} {id : OrderId} {o : Order} (h : Edited i ids t t') (hid : id ∈ ids)
      (hown : o.id = id) (hi : o.instrument = i)
      (hf : ∀ o', t'.find? id = some o' → o'.instrument = i) : Edited i ids t (t'.put id o)

namespace Edited

variable {i : Instrument} {ids : List OrderId}

/-- A live order is put back with other shares. -/
theorem rest (ht : t.Sound) (hlive : t.find? id = some o) (hown : o.instrument = i)
    (hid : id ∈ ids) (left : Quantity) :
    Edited i ids t (t.put id { o with quantity := left }) := by
  refine .put .refl hid (ht.own id o hlive) hown fun o' ho' => ?_
  rw [hlive, Option.some.injEq] at ho'
  exact ho' ▸ hown

theorem sound (h : Edited i ids t t') (ht : t.Sound) : t'.Sound := by
  induction h with
  | refl => exact ht
  | put _ _ hown _ _ ih => exact ih.put hown

/-- The orders of other instruments are as they were. -/
theorem restrict {keep : Instrument → Bool} (h : Edited i ids t t') (hk : keep i = false) :
    t'.restrict keep = t.restrict keep := by
  induction h with
  | refl => rfl
  | put _ _ _ hi hf ih =>
    rw [restrict_put_of_drop (by rw [hi, hk]) (fun o' ho' => by rw [hf o' ho', hk]), ih]

/-- A live order was live on its instrument before, or is one of those put. -/
theorem owner (h : Edited i ids t t') {id : OrderId} {o : Order} (ho : t'.find? id = some o) :
    (∃ o', t.find? id = some o' ∧ o'.instrument = o.instrument) ∨
      (id ∈ ids ∧ o.instrument = i) := by
  induction h with
  | refl => exact .inl ⟨o, ho, rfl⟩
  | @put t' id' new _ hid _ hi _ ih =>
    rw [find?_put] at ho
    split at ho
    · rename_i he
      right
      split at ho
      · cases ho
      · exact ⟨he ▸ hid, Option.some.inj ho ▸ hi⟩
    · exact ih ho

end Edited

end OrderTable
end TopOfBook
