import TopOfBook.Book.Side
import TopOfBook.Proofs.OrderedMap
import TopOfBook.Proofs.Shares
import Mathlib.Tactic.Common

/-! What adding and taking away shares does to the levels of a side. Both set one level, and
both say truly whether the best level may have moved: a level that is not best before and not
best afterwards leaves the best one as it was. -/

namespace TopOfBook

/-- A price has priority over another: a higher bid, a lower offer. -/
def Side.beats : Side → Price → Price → Prop
  | .buy, p, q => q.ticks < p.ticks
  | .sell, p, q => p.ticks < q.ticks

instance (s : Side) (p q : Price) : Decidable (s.beats p q) :=
  match s with
  | .buy => inferInstanceAs (Decidable (q.ticks < p.ticks))
  | .sell => inferInstanceAs (Decidable (p.ticks < q.ticks))

namespace Side

variable {s : Side} {p q r : Price}

theorem beats_irrefl (s : Side) (p : Price) : ¬ s.beats p p := by
  cases s <;> exact Int64.lt_irrefl

theorem beats_trans (hpq : s.beats p q) (hqr : s.beats q r) : s.beats p r := by
  cases s with
  | buy => exact Int64.lt_trans hqr hpq
  | sell => exact Int64.lt_trans hpq hqr

theorem beats_asymm (hpq : s.beats p q) : ¬ s.beats q p :=
  fun hqp => beats_irrefl s p (beats_trans hpq hqp)

theorem beats_of_not_beats (hne : p ≠ q) (h : ¬ s.beats p q) : s.beats q p := by
  have hne' : p.ticks.toInt ≠ q.ticks.toInt := fun e => hne (by
    cases p; cases q
    exact congrArg Price.mk (Int64.toInt_inj.1 e))
  cases s <;> simp only [beats, Int64.lt_iff_toInt_lt] at h ⊢ <;> omega

end Side

theorem Price.compare_eq_lt_iff {p q : Price} : compare p q = .lt ↔ p.ticks < q.ticks :=
  Std.compare_eq_lt (a := p.ticks)

namespace BookSide

variable {side : Side} {b c : BookSide side} {p p' : Price} {q : Quantity} {l : Level}

/-! ### The list of levels -/

theorem mem_levels : l ∈ b.levels ↔ b.quantityAt? l.price = some l.quantity := by
  have h : (l ∈ b.byPrice.toList.map fun x => Level.mk x.1 x.2) ↔
      b.quantityAt? l.price = some l.quantity := by
    rw [List.mem_map, quantityAt?, ← Std.ExtTreeMap.mem_toList_iff_getElem?_eq_some]
    constructor
    · rintro ⟨⟨price, quantity⟩, h, rfl⟩
      exact h
    · exact fun h => ⟨_, h, rfl⟩
  cases side
  · exact List.mem_reverse.trans h
  · exact h

/-- Levels stand in the order of their priority. -/
theorem levels_pairwise (b : BookSide side) :
    b.levels.Pairwise fun l m => side.beats l.price m.price := by
  have h := b.byPrice.ordered_keys_toList
  cases side with
  | buy =>
    rw [levels, List.pairwise_reverse, List.pairwise_map]
    exact h.imp Price.compare_eq_lt_iff.1
  | sell =>
    rw [levels, List.pairwise_map]
    exact h.imp Price.compare_eq_lt_iff.1

theorem best?_eq_head? (b : BookSide side) : b.best? = b.levels.head? := by
  cases side with
  | buy =>
    simp only [best?, highest?, levels, OrderedMap.maxEntry?_eq_getLast?, List.head?_reverse,
      List.getLast?_map]
  | sell =>
    simp only [best?, lowest?, levels, OrderedMap.minEntry?_eq_head?, List.head?_map]

/-- The best level beats all others. -/
theorem best?_eq_some_iff : b.best? = some l ↔
    b.quantityAt? l.price = some l.quantity ∧
      ∀ p, (b.quantityAt? p).isSome → p ≠ l.price → side.beats l.price p := by
  have hall : (∀ p, (b.quantityAt? p).isSome → p ≠ l.price → side.beats l.price p) ↔
      ∀ m ∈ b.levels, m.price ≠ l.price → side.beats l.price m.price := by
    simp only [mem_levels, Option.isSome_iff_exists]
    exact ⟨fun h m hm => h _ ⟨_, hm⟩, fun h p ⟨q, hq⟩ => h ⟨p, q⟩ hq⟩
  rw [hall, ← mem_levels, best?_eq_head?]
  have hs := b.levels_pairwise
  cases hl : b.levels with
  | nil => simp
  | cons m rest =>
    rw [hl, List.pairwise_cons] at hs
    rw [List.head?_cons, Option.some.injEq]
    constructor
    · rintro rfl
      refine ⟨List.mem_cons_self, fun n hn hne => ?_⟩
      rcases List.mem_cons.1 hn with rfl | hn
      · exact absurd rfl hne
      · exact hs.1 n hn
    · rintro ⟨hm, hbest⟩
      rcases List.mem_cons.1 hm with rfl | hm
      · rfl
      · have hml := hs.1 l hm
        have hne : m.price ≠ l.price := fun e => side.beats_irrefl l.price (e ▸ hml)
        exact absurd (hbest m List.mem_cons_self hne) (Side.beats_asymm hml)

theorem isBest_iff : b.isBest p = true ↔
    (b.quantityAt? p).isSome ∧ ∀ p', (b.quantityAt? p').isSome → p' ≠ p → side.beats p p' := by
  simp only [isBest, Option.any_eq_true, decide_eq_true_eq]
  constructor
  · rintro ⟨l, hl, rfl⟩
    obtain ⟨hq, hbest⟩ := best?_eq_some_iff.1 hl
    exact ⟨by simp [hq], hbest⟩
  · rintro ⟨hp, hbest⟩
    obtain ⟨q, hq⟩ := Option.isSome_iff_exists.1 hp
    exact ⟨⟨p, q⟩, best?_eq_some_iff.2 ⟨hq, hbest⟩, rfl⟩

/-- A level that is not best is beaten by another. -/
theorem exists_beats_of_not_best (hp : (b.quantityAt? p).isSome) (h : b.isBest p = false) :
    ∃ p', (b.quantityAt? p').isSome ∧ p' ≠ p ∧ side.beats p' p := by
  by_contra hno
  refine absurd (isBest_iff.2 ⟨hp, fun p' hp' hne => ?_⟩) (by simp [h])
  by_contra hbeat
  exact hno ⟨p', hp', hne, Side.beats_of_not_beats hne.symm hbeat⟩

private theorem best?_of_agree (hoff : ∀ p', p' ≠ p → c.quantityAt? p' = b.quantityAt? p')
    (hb : b.isBest p = false) (hc : c.isBest p = false) (h : b.best? = some l) :
    c.best? = some l := by
  obtain ⟨hq, hbest⟩ := best?_eq_some_iff.1 h
  have hne : l.price ≠ p := by
    rintro rfl
    exact absurd (isBest_iff.2 ⟨by simp [hq], hbest⟩) (by simp [hb])
  refine best?_eq_some_iff.2 ⟨(hoff _ hne).trans hq, fun p' hp' hne' => ?_⟩
  by_cases he : p' = p
  · -- the level at `p` is new, so only one that beats it ties it to the levels of `b`
    subst he
    obtain ⟨r, hr, hrp, hbeat⟩ := exists_beats_of_not_best hp' hc
    rw [hoff r hrp] at hr
    by_cases hrl : r = l.price
    · exact hrl ▸ hbeat
    · exact Side.beats_trans (hbest r hr hrl) hbeat
  · exact hbest p' (hoff p' he ▸ hp') hne'

/-- Sides that differ only in a level that is best in neither have the same best level. -/
theorem best?_eq_of_agree (hoff : ∀ p', p' ≠ p → c.quantityAt? p' = b.quantityAt? p')
    (hb : b.isBest p = false) (hc : c.isBest p = false) : c.best? = b.best? := by
  apply Option.ext
  intro l
  exact ⟨best?_of_agree (fun p' h => (hoff p' h).symm) hc hb, best?_of_agree hoff hb hc⟩

/-! ### Setting a level -/

/-- The shares at a price, none without a level. -/
def sharesAt (b : BookSide side) (p : Price) : Nat := (b.quantityAt? p).elim 0 Quantity.toNat

theorem toNat_quantityAt?_getD (b : BookSide side) (p : Price) :
    ((b.quantityAt? p).getD .zero).toNat = b.sharesAt p := by
  unfold sharesAt
  cases b.quantityAt? p <;> rfl

/-- Every level holds shares. -/
def Filled (b : BookSide side) : Prop := ∀ p q, b.quantityAt? p = some q → 0 < q.toNat

/-- Puts a level with the given shares at a price, or none when there are no shares. -/
def put (b : BookSide side) (p : Price) (q : Quantity) : BookSide side :=
  ⟨if q.isZero then b.byPrice.erase p else b.byPrice.insert p q⟩

theorem quantityAt?_put (b : BookSide side) (p p' : Price) (q : Quantity) :
    (b.put p q).quantityAt? p' =
      if p' = p then (if q.isZero then none else some q) else b.quantityAt? p' := by
  unfold put quantityAt?
  by_cases hne : p' = p
  · subst hne
    split <;> simp
  · split
    · rw [Std.ExtTreeMap.getElem?_erase]
      simp [Ne.symm hne]
    · rw [Std.ExtTreeMap.getElem?_insert]
      simp [Ne.symm hne]

theorem quantityAt?_put_of_ne (h : p' ≠ p) : (b.put p q).quantityAt? p' = b.quantityAt? p' := by
  rw [quantityAt?_put, if_neg h]

theorem sharesAt_put (b : BookSide side) (p p' : Price) (q : Quantity) :
    (b.put p q).sharesAt p' = if p' = p then q.toNat else b.sharesAt p' := by
  unfold sharesAt
  rw [quantityAt?_put]
  split
  · cases hq : q.isZero with
    | true => simp [Quantity.isZero_iff.1 hq]
    | false => simp
  · rfl

/-- The shares of the side move by what the level held and holds. -/
theorem total_put (b : BookSide side) (p : Price) (q : Quantity) :
    (b.put p q).total + b.sharesAt p = b.total + q.toNat := by
  have hsum (c : BookSide side) : c.total = (c.byPrice.toList.map fun x => x.2.toNat).sum := by
    rw [total, Quantity.total_eq_sum, List.map_map]
    rfl
  have herase : b.total =
      b.sharesAt p + ((b.byPrice.erase p).toList.map fun x => x.2.toNat).sum := by
    rw [hsum, OrderedMap.sum_erase b.byPrice p fun _ q => q.toNat]
    rfl
  have hput : (b.put p q).total =
      q.toNat + ((b.byPrice.erase p).toList.map fun x => x.2.toNat).sum := by
    rw [hsum]
    unfold put
    split
    · rw [Quantity.isZero_iff.1 ‹_›, Nat.zero_add]
    · exact OrderedMap.sum_insert b.byPrice p q fun _ q => q.toNat
  omega

theorem Filled.put (hb : b.Filled) : (b.put p q).Filled := by
  intro p' q' h
  rw [quantityAt?_put] at h
  split at h
  · cases hq : q.isZero with
    | true => simp [hq] at h
    | false =>
      simp only [hq, Bool.false_eq_true, if_false, Option.some.injEq] at h
      exact h ▸ Quantity.isZero_eq_false_iff.1 hq
  · exact hb p' q' h

/-- The level at a price is known from its shares. -/
theorem Filled.quantityAt?_eq_some_iff (hb : b.Filled) :
    b.quantityAt? p = some q ↔ b.sharesAt p = q.toNat ∧ 0 < q.toNat := by
  unfold sharesAt
  constructor
  · intro h
    rw [h]
    exact ⟨rfl, hb p q h⟩
  · rintro ⟨hshares, hpos⟩
    cases hl : b.quantityAt? p with
    | none =>
      rw [hl, Option.elim_none] at hshares
      omega
    | some available =>
      rw [hl, Option.elim_some] at hshares
      rw [Quantity.toNat_inj hshares]

/-- Sides without empty levels are the same when they have the same shares at each price. -/
theorem Filled.eq_of_sharesAt (hb : b.Filled) (hc : c.Filled)
    (h : ∀ p, c.sharesAt p = b.sharesAt p) : c = b := by
  have hlevel (p : Price) : c.quantityAt? p = b.quantityAt? p := by
    apply Option.ext
    intro q
    rw [hb.quantityAt?_eq_some_iff, hc.quantityAt?_eq_some_iff, h]
  cases b; cases c
  exact congrArg BookSide.mk (Std.ExtTreeMap.ext_getElem? hlevel)

theorem filled_empty : (empty : BookSide side).Filled := by
  intro p q h
  simp [empty, quantityAt?] at h

@[simp] theorem best?_empty : (empty : BookSide side).best? = none := by
  rw [best?_eq_head?]
  have h : (empty : BookSide side).levels = [] := by
    apply List.eq_nil_iff_forall_not_mem.2
    intro l hl
    simp [mem_levels, empty, quantityAt?] at hl
  rw [h, List.head?_nil]

@[simp] theorem sharesAt_empty (p : Price) : (empty : BookSide side).sharesAt p = 0 := by
  simp [empty, sharesAt, quantityAt?]

/-- A level that stays a level stays as good as it was. -/
theorem isBest_put (hp : (b.quantityAt? p).isSome) (hq : q.isZero = false) :
    (b.put p q).isBest p = b.isBest p := by
  rw [Bool.eq_iff_iff, isBest_iff, isBest_iff]
  have hself : ((b.put p q).quantityAt? p).isSome := by simp [quantityAt?_put, hq]
  simp only [hself, hp, true_and]
  refine forall_congr' fun p' => ?_
  by_cases hne : p' = p
  · simp [hne]
  · rw [quantityAt?_put_of_ne hne]

theorem isBest_eq_false_of_none (hp : b.quantityAt? p = none) : b.isBest p = false := by
  rw [← Bool.not_eq_true, isBest_iff, hp]
  simp

/-! ### Adding and taking away -/

/-- Adding either changes nothing, or puts the sum at the price. -/
theorem add_eq_ok_iff {touched : Bool} : b.add p q = .ok (c, touched) ↔
    (q.isZero = true ∧ c = b ∧ touched = false) ∨
    (q.isZero = false ∧ ∃ sum : Quantity, sum.toNat = b.sharesAt p + q.toNat ∧
      c = b.put p sum ∧ touched = c.isBest p) := by
  unfold add
  cases hq : q.isZero with
  | true => simp [eq_comm]
  | false =>
    have hav := toNat_quantityAt?_getD b p
    have hput {sum : Quantity} (h : sum.toNat = b.sharesAt p + q.toNat) :
        b.put p sum = ⟨b.byPrice.insert p sum⟩ := by
      have h0 := Quantity.isZero_eq_false_iff.1 hq
      rw [put, if_neg]
      rw [Quantity.isZero_iff]
      omega
    simp only [Bool.false_eq_true, if_false, false_and, false_or, true_and]
    cases ha : ((b.quantityAt? p).getD .zero).add? q with
    | none =>
      rw [Quantity.add?_eq_none_iff, hav] at ha
      simp only [reduceCtorEq, false_iff]
      rintro ⟨sum, hsum, -⟩
      have := sum.toNat_le_maximum
      omega
    | some sum =>
      rw [Quantity.add?_eq_some_iff, hav] at ha
      simp only [Except.ok.injEq, Prod.mk.injEq]
      constructor
      · rintro ⟨rfl, rfl⟩
        exact ⟨sum, ha, (hput ha).symm, rfl⟩
      · rintro ⟨sum', hsum, rfl, rfl⟩
        obtain rfl : sum' = sum := Quantity.toNat_inj (hsum.trans ha.symm)
        rw [hput ha]
        exact ⟨rfl, rfl⟩

/-- Taking away puts what is left at the price. -/
theorem reduce_eq_ok_iff {touched : Bool} : b.reduce p q = .ok (c, touched) ↔
    (b.quantityAt? p).isSome ∧ ∃ rest : Quantity, rest.toNat + q.toNat = b.sharesAt p ∧
      c = b.put p rest ∧ touched = b.isBest p := by
  unfold reduce sharesAt
  cases ha : b.quantityAt? p with
  | none => simp
  | some available =>
    simp only [Option.isSome_some, Option.elim_some, true_and]
    cases hs : available.sub? q with
    | none =>
      rw [Quantity.sub?_eq_none_iff] at hs
      simp only [reduceCtorEq, false_iff]
      rintro ⟨rest, hrest, -⟩
      omega
    | some rest =>
      rw [Quantity.sub?_eq_some_iff] at hs
      have hput : (if rest.isZero then Except.ok (⟨b.byPrice.erase p⟩, b.isBest p)
          else .ok (⟨b.byPrice.insert p rest⟩, b.isBest p) : Except BookFault _) =
            .ok (b.put p rest, b.isBest p) := by
        unfold put
        split <;> rfl
      simp only [hput, Except.ok.injEq, Prod.mk.injEq]
      constructor
      · rintro ⟨rfl, rfl⟩
        exact ⟨rest, hs, rfl, rfl⟩
      · rintro ⟨rest', hrest, rfl, rfl⟩
        obtain rfl : rest' = rest := Quantity.toNat_inj (by omega)
        exact ⟨rfl, rfl⟩

/-- Adding fails only where the level has no room, and tells what it holds. -/
theorem add_eq_error_iff {fault : BookFault} : b.add p q = .error fault ↔
    Quantity.maximum < b.sharesAt p + q.toNat ∧
      fault = .levelOverflow side p q ((b.quantityAt? p).getD .zero) := by
  rw [← toNat_quantityAt?_getD]
  unfold add
  cases hq : q.isZero with
  | true =>
    have hmax := ((b.quantityAt? p).getD .zero).toNat_le_maximum
    rw [Quantity.isZero_iff.1 hq, Nat.add_zero, if_pos rfl]
    simp only [reduceCtorEq, false_iff, not_and]
    omega
  | false =>
    dsimp only
    rw [if_neg Bool.false_ne_true, ← Quantity.add?_eq_none_iff]
    cases ((b.quantityAt? p).getD .zero).add? q <;> simp [eq_comm]

/-- Taking away fails where there is no level or too small a one, and tells what it holds. -/
theorem reduce_eq_error_iff {fault : BookFault} : b.reduce p q = .error fault ↔
    (b.quantityAt? p = none ∨ b.sharesAt p < q.toNat) ∧
      fault = .levelShortage side p q ((b.quantityAt? p).getD .zero) := by
  rw [← toNat_quantityAt?_getD]
  unfold reduce
  cases b.quantityAt? p with
  | none => simp [eq_comm]
  | some available =>
    simp only [reduceCtorEq, false_or, Option.getD_some, ← Quantity.sub?_eq_none_iff]
    cases available.sub? q with
    | none => simp [eq_comm]
    | some rest =>
      dsimp only
      split <;> simp

theorem sharesAt_add {touched : Bool} (h : b.add p q = .ok (c, touched)) (p' : Price) :
    c.sharesAt p' = b.sharesAt p' + if p' = p then q.toNat else 0 := by
  rcases add_eq_ok_iff.1 h with ⟨hq, rfl, -⟩ | ⟨-, sum, hsum, rfl, -⟩
  · simp [Quantity.isZero_iff.1 hq]
  · rw [sharesAt_put]
    split <;> simp_all

theorem sharesAt_reduce {touched : Bool} (h : b.reduce p q = .ok (c, touched)) (p' : Price) :
    c.sharesAt p' + (if p' = p then q.toNat else 0) = b.sharesAt p' := by
  obtain ⟨-, rest, hrest, rfl, -⟩ := reduce_eq_ok_iff.1 h
  rw [sharesAt_put]
  split <;> simp_all

theorem total_add {touched : Bool} (h : b.add p q = .ok (c, touched)) :
    c.total = b.total + q.toNat := by
  rcases add_eq_ok_iff.1 h with ⟨hq, rfl, -⟩ | ⟨-, sum, hsum, rfl, -⟩
  · rw [Quantity.isZero_iff.1 hq, Nat.add_zero]
  · have hput := total_put b p sum
    omega

theorem total_reduce {touched : Bool} (h : b.reduce p q = .ok (c, touched)) :
    c.total + q.toNat = b.total := by
  obtain ⟨-, rest, hrest, rfl, -⟩ := reduce_eq_ok_iff.1 h
  have hput := total_put b p rest
  omega

theorem Filled.add {touched : Bool} (hb : b.Filled) (h : b.add p q = .ok (c, touched)) :
    c.Filled := by
  rcases add_eq_ok_iff.1 h with ⟨-, rfl, -⟩ | ⟨-, sum, -, rfl, -⟩
  · exact hb
  · exact hb.put

theorem Filled.reduce {touched : Bool} (hb : b.Filled) (h : b.reduce p q = .ok (c, touched)) :
    c.Filled := by
  obtain ⟨-, rest, -, rfl, -⟩ := reduce_eq_ok_iff.1 h
  exact hb.put

/-- An addition that touched nothing left the best level alone. -/
theorem best?_add_of_untouched (h : b.add p q = .ok (c, false)) : c.best? = b.best? := by
  rcases add_eq_ok_iff.1 h with ⟨-, rfl, -⟩ | ⟨hq, sum, hsum, rfl, hc⟩
  · rfl
  · refine best?_eq_of_agree (p := p) (fun p' hne => quantityAt?_put_of_ne hne) ?_ hc.symm
    cases hp : b.quantityAt? p with
    | none => exact isBest_eq_false_of_none hp
    | some available =>
      have h0 := Quantity.isZero_eq_false_iff.1 hq
      rw [← isBest_put (q := sum) (by simp [hp]), ← hc]
      exact Quantity.isZero_eq_false_iff.2 (by omega)

/-- Taking shares off a level that is not best leaves the best level alone. -/
theorem best?_reduce_of_untouched (h : b.reduce p q = .ok (c, false)) : c.best? = b.best? := by
  obtain ⟨hp, rest, hrest, rfl, hb⟩ := reduce_eq_ok_iff.1 h
  refine best?_eq_of_agree (p := p) (fun p' hne => quantityAt?_put_of_ne hne) hb.symm ?_
  cases hr : rest.isZero with
  | true => exact isBest_eq_false_of_none (by simp [quantityAt?_put, hr])
  | false => rw [isBest_put hp hr, ← hb]

end BookSide
end TopOfBook
