import Mathlib.Data.List.Infix
import Mathlib.Data.List.Nodup
import TopOfBook.Proofs.LiveOrders
import TopOfBook.Proofs.Results

/-! The life of an order, from its registration until it leaves the table. While it is live it has
the shares it was registered with, less those that were taken off it since; it leaves with none
when it is reduced to nothing or removed, and with what is left when its instrument is purged. Its
number may be used again afterwards, by another life. In place an order is reduced before it is
known whether it leaves, and taken out before it is known whether it was there; a call that is
refused leaves the table as it was all the same. -/

namespace TopOfBook

inductive TableCall
  | register (order : Order)
  | reduce (id : OrderId) (quantity : Quantity)
  | remove (id : OrderId)
  | purge (instrument : Instrument)

/-- The order that a call takes shares off. -/
def TableCall.takesFrom? : TableCall → Option OrderId
  | reduce id _ => some id
  | remove id => some id
  | _ => none

/-- What a call that goes through tells. -/
inductive Receipt
  | registered (order : Order)
  | reduced (reduction : Reduction)
  | purged (orders : Nat)

namespace Receipt

def reduction? : Receipt → Option Reduction
  | reduced r => some r
  | _ => none

/-- How many orders entered the table. -/
def registrations : Receipt → Nat
  | registered _ => 1
  | _ => 0

/-- How many orders left the table. -/
def departures : Receipt → Nat
  | registered _ => 0
  | reduced r => if r.removed then 1 else 0
  | purged orders => orders

end Receipt

/-- The reductions of an order, oldest first. -/
def reductionsOf (id : OrderId) (receipts : List Receipt) : List Reduction :=
  (receipts.filterMap Receipt.reduction?).filter fun r => r.order.id = id

/-- The shares that the reductions of an order took off it. -/
def sharesTaken (id : OrderId) (receipts : List Receipt) : Nat :=
  ((reductionsOf id receipts).map fun r => r.reduced.toNat).sum

namespace OrderTable

variable {t t' : OrderTable} {id : OrderId} {o : Order} {c : TableCall} {r : Receipt}
  {calls : List TableCall} {receipts : List Receipt}

def call (t : OrderTable) : TableCall → Except BookFault (OrderTable × Receipt)
  | .register o => (t.register o).map fun t' => (t', .registered o)
  | .reduce id q => (t.reduce id q).map fun (t', r) => (t', .reduced r)
  | .remove id => (t.remove id).map fun (t', r) => (t', .reduced r)
  | .purge i => .ok ((t.purge i).1, .purged (t.purge i).2)

/-- Takes a call that goes through. One that is refused leaves the table and the receipts alone. -/
def enter (entered : OrderTable × List Receipt) (c : TableCall) : OrderTable × List Receipt :=
  match entered.1.call c with
  | .ok (t, r) => (t, entered.2 ++ [r])
  | .error _ => entered

/-- A table after some calls, with the receipts of those that went through. -/
def run (t : OrderTable) (calls : List TableCall) : OrderTable × List Receipt :=
  calls.foldl enter (t, [])

theorem run_concat (t : OrderTable) (calls : List TableCall) (c : TableCall) :
    t.run (calls ++ [c]) = enter (t.run calls) c := by
  rw [run, List.foldl_append, List.foldl_cons, List.foldl_nil, run]

/-! ### Calls in place -/

def registerInPlace (t : OrderTable) (o : Order) : OrderTable × Except BookFault Unit :=
  if o.quantity.isZero then (t, .error (.zeroQuantity o.id))
  else if t.contains o.id then (t, .error (.duplicateOrder o.id))
  else (⟨t.byId.insert o.id o⟩, .ok ())

/-- Takes shares off in place. An order is written back also when nothing is left of it, and goes
away only then. -/
def reduceInPlace (t : OrderTable) (id : OrderId) (quantity : Quantity) :
    OrderTable × Except BookFault Reduction :=
  match t.find? id with
  | none => (t, .error (.unknownOrder id))
  | some order =>
    match order.quantity.sub? quantity with
    | none => (t, .error (.overReduction id quantity order.quantity))
    | some remaining =>
      let order := { order with quantity := remaining }
      let t : OrderTable := ⟨t.byId.insert id order⟩
      let removed := remaining.isZero
      (if removed then ⟨t.byId.erase id⟩ else t, .ok ⟨order, quantity, removed⟩)

/-- Takes an order out in place. The number is free afterwards, with an order there or not. -/
def removeInPlace (t : OrderTable) (id : OrderId) : OrderTable × Except BookFault Reduction :=
  let found := t.find? id
  let t : OrderTable := ⟨t.byId.erase id⟩
  match found with
  | none => (t, .error (.unknownOrder id))
  | some order => (t, .ok ⟨{ order with quantity := .zero }, order.quantity, true⟩)

theorem registerInPlace_eq (t : OrderTable) (o : Order) :
    t.registerInPlace o = settle t ((t.register o).map fun t' => (t', ())) := by
  unfold registerInPlace register
  split
  · rfl
  · split <;> rfl

theorem reduceInPlace_eq (t : OrderTable) (id : OrderId) (q : Quantity) :
    t.reduceInPlace id q = settle t (t.reduce id q) := by
  unfold reduceInPlace reduce
  cases t.find? id with
  | none => rfl
  | some order =>
    dsimp only
    cases order.quantity.sub? q with
    | none => rfl
    | some remaining =>
      dsimp only
      rw [OrderedMap.erase_insert]
      cases remaining.isZero <;> rfl

theorem removeInPlace_eq (t : OrderTable) (id : OrderId) :
    t.removeInPlace id = settle t (t.remove id) := by
  unfold removeInPlace remove
  cases hfind : t.find? id with
  | some order => rfl
  | none => rw [OrderedMap.erase_of_none t.byId hfind]; rfl

/-- A call in place, with its receipt when it goes through. -/
def callInPlace (t : OrderTable) : TableCall → OrderTable × Except BookFault Receipt
  | .register o => ((t.registerInPlace o).1, (t.registerInPlace o).2.map fun _ => .registered o)
  | .reduce id q => ((t.reduceInPlace id q).1, (t.reduceInPlace id q).2.map .reduced)
  | .remove id => ((t.removeInPlace id).1, (t.removeInPlace id).2.map .reduced)
  | .purge i => ((t.purge i).1, .ok (.purged (t.purge i).2))

theorem callInPlace_eq (t : OrderTable) (c : TableCall) :
    t.callInPlace c = settle t (t.call c) := by
  cases c with
  | register o =>
    rw [callInPlace, registerInPlace_eq, call, ← settle_map]
    cases t.register o <;> rfl
  | reduce id q => rw [callInPlace, reduceInPlace_eq, call, settle_map]
  | remove id => rw [callInPlace, removeInPlace_eq, call, settle_map]
  | purge i => rfl

/-- Calls in place lead to the same table as calls that are entered only when they go through. -/
theorem foldl_callInPlace (t : OrderTable) (calls : List TableCall) :
    calls.foldl (fun t c => (t.callInPlace c).1) t = (t.run calls).1 := by
  induction calls using List.reverseRecOn with
  | nil => rfl
  | append_singleton calls c ih =>
    rw [List.foldl_concat, ih, run_concat, enter, callInPlace_eq]
    cases (t.run calls).1.call c <;> rfl

/-! ### One call -/

/-- What a call that goes through does to the table. -/
inductive Turn (t : OrderTable) : TableCall → OrderTable → Receipt → Prop
  | registered (o : Order) (hsome : o.quantity.isZero = false) (hfree : t.find? o.id = none) :
      Turn t (.register o) (t.put o.id o) (.registered o)
  | taken {c : TableCall} (id : OrderId) (o : Order) (rest taken : Quantity)
      (hc : c.takesFrom? = some id) (hlive : t.find? id = some o)
      (hrest : rest.toNat + taken.toNat = o.quantity.toNat) :
      Turn t c (t.put id { o with quantity := rest })
        (.reduced ⟨{ o with quantity := rest }, taken, rest.isZero⟩)
  | purged (i : Instrument) : Turn t (.purge i) (t.purge i).1 (.purged (t.purge i).2)

/-- Shares are taken off a live order that has them. -/
theorem turn_of_take {quantity : Option Quantity} {reduction : Reduction}
    (hc : c.takesFrom? = some id) (h : t.take id quantity = .ok (t', reduction)) :
    Turn t c t' (.reduced reduction) := by
  cases hlive : t.find? id with
  | none => cases quantity <;> simp [take, remove, reduce, hlive] at h
  | some o =>
    obtain ⟨rest, hrest, rfl, rfl⟩ := (take_eq_ok_iff hlive).1 h
    exact .taken id o rest _ hc hlive hrest

theorem turn_of_call (h : t.call c = .ok (t', r)) : Turn t c t' r := by
  cases c with
  | register o =>
    obtain ⟨t₁, ho, he⟩ := exists_of_map_eq_ok h
    obtain ⟨hsome, hfree, rfl⟩ := register_eq_ok_iff.1 ho
    cases he
    exact .registered o hsome hfree
  | reduce id q =>
    obtain ⟨⟨t₁, reduction⟩, ho, he⟩ := exists_of_map_eq_ok h
    cases he
    exact turn_of_take rfl (show t.take id (some q) = _ from ho)
  | remove id =>
    obtain ⟨⟨t₁, reduction⟩, ho, he⟩ := exists_of_map_eq_ok h
    cases he
    exact turn_of_take rfl (show t.take id none = _ from ho)
  | purge i =>
    cases h
    exact .purged i

theorem Sound.turn (ht : t.Sound) (h : Turn t c t' r) : t'.Sound := by
  cases h with
  | registered o => exact ht.put rfl
  | taken id o rest taken _ hlive => exact ht.put (ht.own id o hlive)
  | purged i =>
    rw [purge_fst]
    exact ht.restrict _

theorem Sound.run (ht : t.Sound) (calls : List TableCall) : (t.run calls).1.Sound := by
  induction calls using List.reverseRecOn with
  | nil => exact ht
  | append_singleton calls c ih =>
    rw [run_concat, enter]
    split
    · exact ih.turn (turn_of_call ‹_›)
    · exact ih

/-! ### The number of orders -/

theorem size_put (t : OrderTable) (id : OrderId) (o : Order) :
    (t.put id o).size + (if (t.find? id).isSome then 1 else 0) =
      t.size + if o.quantity.isZero then 0 else 1 := by
  have herase : (t.byId.erase id).size + (if (t.find? id).isSome then 1 else 0) = t.size := by
    rw [find?, size]
    cases hf : t.byId[id]? with
    | none => rw [OrderedMap.erase_of_none _ hf]; rfl
    | some old =>
      rw [← Std.ExtTreeMap.length_toList, ← Std.ExtTreeMap.length_toList,
        (OrderedMap.toList_erase_perm _ hf).length_eq]
      rfl
  have hfree : (t.byId.erase id).contains id = false := by simp
  rw [size, put]
  split
  · exact herase
  · rw [← OrderedMap.insert_erase, Std.ExtTreeMap.size_insert, hfree]
    rw [if_neg Bool.false_ne_true]
    omega

theorem Turn.size (h : Turn t c t' r) : t'.size + r.departures = t.size + r.registrations := by
  cases h with
  | registered o hsome hfree =>
    have hput := size_put t o.id o
    rw [hfree, hsome] at hput
    exact hput
  | taken id o rest taken _ hlive =>
    have hput := size_put t id { o with quantity := rest }
    rw [hlive] at hput
    simp only [Option.isSome_some, if_true] at hput
    simp only [Receipt.departures, Receipt.registrations]
    split at hput
    · rw [if_pos ‹_›]
      omega
    · rw [if_neg ‹_›]
      omega
  | purged i =>
    have hle : (t.purge i).1.size ≤ t.size := Std.ExtTreeMap.size_filter_le_size
    exact Nat.add_sub_cancel' hle

theorem length_toList (t : OrderTable) : t.toList.length = t.size := by
  rw [toList, List.length_map, Std.ExtTreeMap.length_toList, size]

theorem ids_toList (ht : t.Sound) : t.toList.map Order.id = t.byId.keys := by
  rw [toList, List.map_map, ← Std.ExtTreeMap.map_fst_toList_eq_keys]
  refine List.map_congr_left fun x hx => ?_
  exact ht.own x.1 x.2 (Std.ExtTreeMap.mem_toList_iff_getElem?_eq_some.1 hx)

theorem toList_nodup (ht : t.Sound) : t.toList.Nodup := by
  apply List.Nodup.of_map Order.id
  rw [ids_toList ht]
  exact Std.ExtTreeMap.nodup_keys

/-- One live order has the number, and no more. -/
theorem filter_id (ht : t.Sound) (hlive : t.find? id = some o) :
    (t.toList.filter fun o' => o'.id = id) = [o] := by
  have hperm : (t.toList.filter fun o' => o'.id = id).Perm [o] := by
    rw [List.perm_ext_iff_of_nodup ((toList_nodup ht).filter _) (List.nodup_singleton o)]
    intro o'
    rw [List.mem_filter, ht.mem_toList, decide_eq_true_eq, List.mem_singleton]
    constructor
    · rintro ⟨ho', rfl⟩
      exact Option.some.inj (ho'.symm.trans hlive)
    · rintro rfl
      have hid := ht.own id o' hlive
      exact ⟨hid.symm ▸ hlive, hid⟩
  exact List.perm_singleton.1 hperm

/-- The orders that are live in the one table and not in the other. -/
def gone (t t' : OrderTable) : List Order := t.toList.filter fun o => !t'.contains o.id

theorem length_gone (ht : t.Sound) (h : ∀ id, t'.contains id = true → t.contains id = true) :
    (t.gone t').length + t'.size = t.size := by
  have hkept : (t.byId.keys.filter fun id => t'.contains id).Perm t'.byId.keys := by
    rw [List.perm_ext_iff_of_nodup (Std.ExtTreeMap.nodup_keys.filter _) Std.ExtTreeMap.nodup_keys]
    intro id
    rw [List.mem_filter, Std.ExtTreeMap.mem_keys, Std.ExtTreeMap.mem_keys]
    exact ⟨fun hid => hid.2, fun hid => ⟨h id hid, hid⟩⟩
  have hlength : (t.toList.filter fun o => t'.contains o.id).length = t'.size := by
    rw [size, ← Std.ExtTreeMap.length_keys, ← hkept.length_eq, ← ids_toList ht, List.filter_map,
      List.length_map]
    rfl
  have hsplit := List.length_eq_length_filter_add (l := t.toList) fun o => t'.contains o.id
  rw [length_toList, hlength] at hsplit
  rw [gone]
  omega

/-- The departures that are told are the orders that are live no longer. -/
theorem Turn.departures_eq (h : Turn t c t' r) (ht : t.Sound) :
    r.departures = (t.gone t').length := by
  have hsize := h.size
  cases h with
  | registered o hsome hfree =>
    have hstay : t.gone (t.put o.id o) = [] := by
      refine List.filter_eq_nil_iff.2 fun o' ho' => ?_
      have hne : o'.id ≠ o.id := by
        intro e
        rw [ht.mem_toList, e, hfree] at ho'
        cases ho'
      simp [contains_eq_isSome, find?_put, hne, ht.mem_toList.1 ho']
    rw [hstay]
    rfl
  | taken id o rest taken _ hlive =>
    have hgone : (t.gone (t.put id { o with quantity := rest })).length +
        (t.put id { o with quantity := rest }).size = t.size := by
      refine length_gone ht fun id' hid' => ?_
      rw [contains_eq_isSome, find?_put] at hid'
      rw [contains_eq_isSome]
      split at hid'
      · rw [‹id' = id›, hlive, Option.isSome_some]
      · exact hid'
    simp only [Receipt.registrations] at hsize
    omega
  | purged i =>
    have hgone : (t.gone (t.purge i).1).length + (t.purge i).1.size = t.size := by
      refine length_gone ht fun id' hid' => ?_
      rw [purge_fst, contains_eq_isSome, find?_restrict] at hid'
      rw [contains_eq_isSome]
      exact Option.isSome_of_isSome_filter _ _ hid'
    simp only [Receipt.registrations] at hsize
    omega

theorem size_run (t : OrderTable) (calls : List TableCall) :
    (t.run calls).1.size + ((t.run calls).2.map Receipt.departures).sum =
      t.size + ((t.run calls).2.map Receipt.registrations).sum := by
  induction calls using List.reverseRecOn with
  | nil => rfl
  | append_singleton calls c ih =>
    rw [run_concat, enter]
    split
    · have hturn := (turn_of_call ‹_›).size
      simp only [List.map_append, List.map_cons, List.map_nil, List.sum_append, List.sum_singleton]
      omega
    · exact ih

/-! ### One order -/

theorem reductionsOf_concat (id : OrderId) (receipts : List Receipt) (r : Receipt) :
    reductionsOf id (receipts ++ [r]) = reductionsOf id receipts ++ reductionsOf id [r] := by
  rw [reductionsOf, List.filterMap_append, List.filter_append]
  rfl

theorem sharesTaken_concat (id : OrderId) (receipts : List Receipt) (r : Receipt) :
    sharesTaken id (receipts ++ [r]) = sharesTaken id receipts + sharesTaken id [r] := by
  rw [sharesTaken, reductionsOf_concat, List.map_append, List.sum_append]
  rfl

theorem contains_put_self (t : OrderTable) (id : OrderId) (o : Order) :
    (t.put id o).contains id = !o.quantity.isZero := by
  rw [contains_eq_isSome, find?_put, if_pos rfl]
  cases o.quantity.isZero <;> rfl

/-- The order is live with what the reductions since its registration left of it. -/
structure Lives (o : Order) (t : OrderTable) (receipts : List Receipt) : Prop where
  shares : ∃ rest : Quantity, t.find? o.id = some { o with quantity := rest } ∧
    rest.toNat + sharesTaken o.id receipts = o.quantity.toNat
  stayed : ∀ r ∈ reductionsOf o.id receipts, r.removed = false

theorem lives_of_register (h : t.register o = .ok t') : Lives o t' [] := by
  obtain ⟨hsome, -, rfl⟩ := register_eq_ok_iff.1 h
  exact ⟨⟨o.quantity, by rw [find?_put, if_pos rfl, hsome]; rfl, rfl⟩, fun r hr => nomatch hr⟩

/-- A call after which the order is still live took nothing off it or left something. -/
theorem Lives.turn (h : Lives o t receipts) (ht : t.Sound) (hturn : Turn t c t' r)
    (hlive : t'.contains o.id = true) : Lives o t' (receipts ++ [r]) := by
  obtain ⟨⟨left, hfind, hleft⟩, hstayed⟩ := h
  have hkept (hsame : t'.find? o.id = t.find? o.id) (hnone : reductionsOf o.id [r] = []) :
      Lives o t' (receipts ++ [r]) := by
    refine ⟨⟨left, hsame.trans hfind, ?_⟩, ?_⟩
    · rw [sharesTaken_concat, sharesTaken, sharesTaken, hnone]
      exact hleft
    · rw [reductionsOf_concat, hnone, List.append_nil]
      exact hstayed
  cases hturn with
  | registered o' hsome hfree =>
    have hne : o.id ≠ o'.id := by
      intro e
      rw [e, hfree] at hfind
      cases hfind
    exact hkept (by rw [find?_put, if_neg hne]) rfl
  | taken id o' rest taken hc hlive' hrest =>
    have hid := ht.own id o' hlive'
    by_cases he : id = o.id
    · subst he
      obtain rfl : o' = { o with quantity := left } := Option.some.inj (hlive'.symm.trans hfind)
      have hzero : rest.isZero = false := by
        rwa [contains_put_self, Bool.not_eq_true'] at hlive
      have hone : reductionsOf o.id [.reduced ⟨{ o with quantity := rest }, taken, rest.isZero⟩] =
          [⟨{ o with quantity := rest }, taken, rest.isZero⟩] := by
        simp [reductionsOf, Receipt.reduction?]
      refine ⟨⟨rest, by rw [find?_put, if_pos rfl, hzero]; rfl, ?_⟩, ?_⟩
      · rw [sharesTaken_concat, sharesTaken, sharesTaken, hone]
        simp only [List.map_cons, List.map_nil, List.sum_singleton]
        dsimp only at hrest
        rw [sharesTaken] at hleft
        omega
      · rw [reductionsOf_concat, hone]
        intro r hr
        rcases List.mem_append.1 hr with hr | hr
        · exact hstayed r hr
        · rw [List.mem_singleton.1 hr]
          exact hzero
    · refine hkept ?_ ?_
      · rw [find?_put, if_neg (Ne.symm he)]
      · simp [reductionsOf, Receipt.reduction?, hid, he]
  | purged i =>
    refine hkept ?_ rfl
    rw [purge_fst, contains_eq_isSome, find?_restrict] at hlive
    rw [purge_fst, find?_restrict]
    cases hf : t.find? o.id with
    | none => rfl
    | some o' => simp_all

/-- An order leaves with the purge of its instrument, or with the last reduction, which takes what
was left of it. -/
theorem Lives.leaves (h : Lives o t receipts) (hturn : Turn t c t' r)
    (hgone : t'.contains o.id = false) :
    c = .purge o.instrument ∨ c.takesFrom? = some o.id ∧ ∃ last, r = .reduced last ∧
      last.removed = true ∧ last.order = { o with quantity := .zero } ∧
      sharesTaken o.id receipts + last.reduced.toNat = o.quantity.toNat := by
  obtain ⟨⟨left, hfind, hleft⟩, -⟩ := h
  rw [contains_eq_isSome] at hgone
  cases hturn with
  | registered o' hsome hfree =>
    have hne : o.id ≠ o'.id := by
      intro e
      rw [e, hfree] at hfind
      cases hfind
    rw [find?_put, if_neg hne, hfind] at hgone
    cases hgone
  | taken id o' rest taken hc hlive hrest =>
    by_cases he : id = o.id
    · subst he
      obtain rfl : o' = { o with quantity := left } := Option.some.inj (hlive.symm.trans hfind)
      have hzero : rest.isZero = true := by
        rwa [← contains_eq_isSome, contains_put_self, Bool.not_eq_false'] at hgone
      have hnone := Quantity.isZero_iff.1 hzero
      obtain rfl : rest = .zero := Quantity.toNat_inj hnone
      dsimp only at hrest
      exact .inr ⟨hc, _, rfl, rfl, rfl, by dsimp only; omega⟩
    · rw [find?_put, if_neg (Ne.symm he), hfind] at hgone
      cases hgone
  | purged i =>
    by_cases hi : o.instrument = i
    · exact .inl (by rw [hi])
    · rw [purge_fst, find?_restrict, hfind, Option.filter_some, if_pos (decide_eq_true hi)] at hgone
      cases hgone

/-- The order with the number is live before the calls, and after each of them. -/
def LivesThrough (id : OrderId) (t : OrderTable) (calls : List TableCall) : Prop :=
  ∀ front, front <+: calls → (t.run front).1.contains id = true

theorem lives_run (ht : t.Sound) (h : Lives o t []) (calls : List TableCall)
    (hlive : LivesThrough o.id t calls) : Lives o (t.run calls).1 (t.run calls).2 := by
  induction calls using List.reverseRecOn with
  | nil => exact h
  | append_singleton calls c ih =>
    have hfront := ih fun front hfront => hlive front (hfront.trans (List.prefix_append _ _))
    have hlast := hlive _ (List.prefix_refl _)
    rw [run_concat, enter] at hlast ⊢
    split at hlast
    · rename_i t' r hcall
      exact hfront.turn (ht.run calls) (turn_of_call hcall) hlast
    · exact hfront

/-- The orders in a table are those that were registered and have not left. An order is alone with
its number as long as it is live, and has the shares it was registered with, less those taken off
it by reductions, none of which removed it. When it leaves other than by a purge of its instrument,
the last reduction removed it and took all that was left. A call that is refused changes nothing. In
place the same calls lead to the same table and have the same answers, and leave it as it was when
they are refused. -/
theorem run_conserves_orders (calls : List TableCall) :
    let t := (empty.run calls).1
    let receipts := (empty.run calls).2
    (t.size + (receipts.map Receipt.departures).sum = (receipts.map Receipt.registrations).sum) ∧
    (∀ c t' r, t.call c = .ok (t', r) → r.departures = (t.gone t').length) ∧
    (∀ c fault, t.call c = .error fault → empty.run (calls ++ [c]) = (t, receipts)) ∧
    (calls.foldl (fun t c => (t.callInPlace c).1) empty = t ∧
      ∀ c, t.callInPlace c = settle t (t.call c)) ∧
    ∀ o t₁, t.register o = .ok t₁ → ∀ later, LivesThrough o.id t₁ later →
      let t₂ := (t₁.run later).1
      let since := (t₁.run later).2
      (∃ rest : Quantity, 0 < rest.toNat ∧
        rest.toNat + sharesTaken o.id since = o.quantity.toNat ∧
        t₂.lookup o.id = .ok { o with quantity := rest } ∧
        (t₂.toList.filter fun o' => o'.id = o.id) = [{ o with quantity := rest }]) ∧
      (∀ r ∈ reductionsOf o.id since, r.removed = false) ∧
      ∀ c t₃ r, t₂.call c = .ok (t₃, r) → t₃.contains o.id = false →
        c = .purge o.instrument ∨ c.takesFrom? = some o.id ∧ ∃ last, r = .reduced last ∧
          last.removed = true ∧ last.order = { o with quantity := .zero } ∧
          sharesTaken o.id since + last.reduced.toNat = o.quantity.toNat := by
  intro t receipts
  have ht : t.Sound := sound_empty.run calls
  refine ⟨?_, fun c t' r hc => (turn_of_call hc).departures_eq ht, fun c fault hc => ?_,
    ⟨foldl_callInPlace empty calls, t.callInPlace_eq⟩, ?_⟩
  · have hsize := size_run empty calls
    rwa [show empty.size = 0 from rfl, Nat.zero_add] at hsize
  · rw [run_concat, enter, hc]
  · intro o t₁ ho later hlive t₂ since
    have ht₁ : t₁.Sound := ht.turn (turn_of_call (c := .register o) (by rw [call, ho]; rfl))
    have ht₂ : t₂.Sound := ht₁.run later
    have hlives : Lives o t₂ since := lives_run ht₁ (lives_of_register ho) later hlive
    obtain ⟨rest, hfind, hrest⟩ := hlives.shares
    exact ⟨⟨rest, ht₂.positive _ _ hfind, hrest, lookup_eq_ok_iff.2 hfind, filter_id ht₂ hfind⟩,
      hlives.stayed, fun c t₃ r hc => hlives.leaves (turn_of_call hc)⟩

def tenShares : Order := ⟨7, ⟨1⟩, .buy, ⟨100⟩, ⟨10⟩⟩

/-- Four of ten shares are taken off, and then one more than are left. -/
def overReduction : List TableCall := [.reduce 7 ⟨4⟩, .reduce 7 ⟨7⟩]

/-- What is asked for comes off the order, more than is left is refused, and with the last shares
the order leaves. -/
theorem run_conserves_orders_overReduction :
    ∃ t₁, empty.register tenShares = .ok t₁ ∧ LivesThrough 7 t₁ overReduction ∧
      let t₂ := (t₁.run overReduction).1
      (t₁.run overReduction).2 = [.reduced ⟨{ tenShares with quantity := ⟨6⟩ }, ⟨4⟩, false⟩] ∧
      t₂.lookup 7 = .ok { tenShares with quantity := ⟨6⟩ } ∧
      t₂.callInPlace (.reduce 7 ⟨7⟩) = (t₂, .error (.overReduction 7 ⟨7⟩ ⟨6⟩)) ∧
      (t₂.callInPlace (.reduce 7 ⟨6⟩)).2 =
        .ok (.reduced ⟨{ tenShares with quantity := .zero }, ⟨6⟩, true⟩) ∧
      (t₂.callInPlace (.reduce 7 ⟨6⟩)).1.contains 7 = false := by
  let t₁ : OrderTable := ⟨empty.byId.insert 7 tenShares⟩
  have hregister : empty.register tenShares = .ok t₁ := rfl
  have hlive : LivesThrough 7 t₁ overReduction := by
    intro front hfront
    simp only [overReduction, List.prefix_cons_iff, List.prefix_nil] at hfront
    obtain rfl | ⟨_, rfl, rfl | ⟨_, rfl, rfl⟩⟩ := hfront <;> rfl
  have hrefused : (t₁.run overReduction).1.call (.reduce 7 ⟨7⟩) =
      .error (.overReduction 7 ⟨7⟩ ⟨6⟩) := rfl
  have hinPlace :=
    (run_conserves_orders (.register tenShares :: overReduction)).2.2.2.1.2 (.reduce 7 ⟨7⟩)
  obtain ⟨⟨rest, -, hrest, hlookup, -⟩, -⟩ :=
    (run_conserves_orders []).2.2.2.2 tenShares t₁ hregister overReduction hlive
  have htaken : sharesTaken 7 (t₁.run overReduction).2 = 4 := rfl
  obtain rfl : rest = ⟨6⟩ := Quantity.toNat_inj (Nat.add_right_cancel (htaken ▸ hrest))
  exact ⟨t₁, hregister, hlive, rfl, hlookup, hinPlace.trans (congrArg (settle _) hrefused),
    rfl, rfl⟩

end OrderTable
end TopOfBook
