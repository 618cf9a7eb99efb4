import TopOfBook.Book.Basic
import TopOfBook.Proofs.Levels
import TopOfBook.Proofs.Results

/-! A change of levels stays on one side of a book and keeps its marks: the instrument, the
inside published last and the fault. Only a change that says it touched the best level can move
the inside. -/

namespace TopOfBook.Book

variable {b c : Book} {s s' : Side} {p p' : Price} {q : Quantity} {touched : Bool}

/-- Books that differ at most in their levels. -/
structure SameMarks (b c : Book) : Prop where
  instrument : c.instrument = b.instrument
  lastInside : c.lastInside = b.lastInside
  corruption : c.corruption = b.corruption

theorem SameMarks.refl (b : Book) : SameMarks b b := ⟨rfl, rfl, rfl⟩

theorem SameMarks.trans {a b c : Book} (h : SameMarks a b) (h' : SameMarks b c) : SameMarks a c :=
  ⟨h'.instrument.trans h.instrument, h'.lastInside.trans h.lastInside,
    h'.corruption.trans h.corruption⟩

theorem sameMarks_setSide (b : Book) (s : Side) (x : BookSide s) : SameMarks b (b.setSide s x) := by
  cases s <;> exact ⟨rfl, rfl, rfl⟩

theorem SameMarks.eq_of_onSide (h : SameMarks b c) (hsides : ∀ s, c.onSide s = b.onSide s) :
    c = b := by
  obtain ⟨hinstrument, hlast, hcorruption⟩ := h
  have hbids : c.bids = b.bids := hsides .buy
  have hasks : c.asks = b.asks := hsides .sell
  cases b; cases c
  simp_all

theorem onSide_setSide (b : Book) (s : Side) (x : BookSide s) : (b.setSide s x).onSide s = x := by
  cases s <;> rfl

theorem onSide_setSide_of_ne (b : Book) (x : BookSide s) (h : s' ≠ s) :
    (b.setSide s x).onSide s' = b.onSide s' := by
  cases s <;> cases s' <;> first | rfl | exact absurd rfl h

theorem inside_setSide {x : BookSide s} (h : x.best? = (b.onSide s).best?) :
    (b.setSide s x).inside = b.inside := by
  cases s with
  | buy => exact congrArg (Quote.mk · _) h
  | sell => exact congrArg (Quote.mk _) h

theorem add_eq_ok (h : b.add s p q = .ok (c, touched)) :
    ∃ x, (b.onSide s).add p q = .ok (x, touched) ∧ c = b.setSide s x := by
  obtain ⟨⟨x, touched'⟩, hx, he⟩ := exists_of_map_eq_ok h
  cases he
  exact ⟨x, hx, rfl⟩

theorem reduce_eq_ok (h : b.reduce s p q = .ok (c, touched)) :
    ∃ x, (b.onSide s).reduce p q = .ok (x, touched) ∧ c = b.setSide s x := by
  obtain ⟨⟨x, touched'⟩, hx, he⟩ := exists_of_map_eq_ok h
  cases he
  exact ⟨x, hx, rfl⟩

theorem sameMarks_add (h : b.add s p q = .ok (c, touched)) : SameMarks b c := by
  obtain ⟨x, -, rfl⟩ := add_eq_ok h
  exact sameMarks_setSide b s x

theorem sameMarks_reduce (h : b.reduce s p q = .ok (c, touched)) : SameMarks b c := by
  obtain ⟨x, -, rfl⟩ := reduce_eq_ok h
  exact sameMarks_setSide b s x

theorem inside_add_of_untouched (h : b.add s p q = .ok (c, false)) : c.inside = b.inside := by
  obtain ⟨x, hx, rfl⟩ := add_eq_ok h
  exact inside_setSide (BookSide.best?_add_of_untouched hx)

theorem inside_reduce_of_untouched (h : b.reduce s p q = .ok (c, false)) :
    c.inside = b.inside := by
  obtain ⟨x, hx, rfl⟩ := reduce_eq_ok h
  exact inside_setSide (BookSide.best?_reduce_of_untouched hx)

/-! ### Shares -/

def sharesAt (b : Book) (s : Side) (p : Price) : Nat := (b.onSide s).sharesAt p

theorem add_eq_error_iff {fault : BookFault} : b.add s p q = .error fault ↔
    Quantity.maximum < b.sharesAt s p + q.toNat ∧
      fault = .levelOverflow s p q (((b.onSide s).quantityAt? p).getD .zero) := by
  rw [sharesAt, ← BookSide.add_eq_error_iff, add]
  cases (b.onSide s).add p q <;> simp [Except.map]

theorem reduce_eq_error_iff {fault : BookFault} : b.reduce s p q = .error fault ↔
    ((b.onSide s).quantityAt? p = none ∨ b.sharesAt s p < q.toNat) ∧
      fault = .levelShortage s p q (((b.onSide s).quantityAt? p).getD .zero) := by
  rw [sharesAt, ← BookSide.reduce_eq_error_iff, reduce]
  cases (b.onSide s).reduce p q <;> simp [Except.map]

/-- Shares that were added had room on their level. -/
theorem room_of_add (h : b.add s p q = .ok (c, touched)) :
    b.sharesAt s p + q.toNat ≤ Quantity.maximum := by
  by_contra hfull
  rw [add_eq_error_iff.2 ⟨Nat.not_le.1 hfull, rfl⟩] at h
  cases h

/-- A level that is short has fewer shares than are to come off it. -/
theorem short_of_reduce {fault : BookFault} (h : b.reduce s p q = .error fault)
    (hsome : 0 < q.toNat) : b.sharesAt s p < q.toNat := by
  rcases (reduce_eq_error_iff.1 h).1 with hnone | hless
  · rwa [sharesAt, BookSide.sharesAt, hnone]
  · exact hless

/-- Every level of both sides holds shares. -/
def Filled (b : Book) : Prop := ∀ s, (b.onSide s).Filled

theorem filled_empty (i : Instrument) : (empty i).Filled := by
  intro s
  cases s <;> exact BookSide.filled_empty

@[simp] theorem sharesAt_empty (i : Instrument) (s : Side) (p : Price) :
    (empty i).sharesAt s p = 0 := by
  cases s <;> exact BookSide.sharesAt_empty p

theorem Filled.setSide (hb : b.Filled) {x : BookSide s} (hx : x.Filled) :
    (b.setSide s x).Filled := by
  intro s'
  by_cases h : s' = s
  · subst h
    rwa [onSide_setSide]
  · rw [onSide_setSide_of_ne b x h]
    exact hb s'

theorem Filled.add (hb : b.Filled) (h : b.add s p q = .ok (c, touched)) : c.Filled := by
  obtain ⟨x, hx, rfl⟩ := add_eq_ok h
  exact hb.setSide ((hb s).add hx)

theorem Filled.reduce (hb : b.Filled) (h : b.reduce s p q = .ok (c, touched)) : c.Filled := by
  obtain ⟨x, hx, rfl⟩ := reduce_eq_ok h
  exact hb.setSide ((hb s).reduce hx)

/-- Books without empty levels have the same sides when they have the same shares everywhere. -/
theorem Filled.onSide_eq_of_sharesAt (hb : b.Filled) (hc : c.Filled)
    (h : ∀ s p, c.sharesAt s p = b.sharesAt s p) (s : Side) : c.onSide s = b.onSide s :=
  (hb s).eq_of_sharesAt (hc s) (h s)

theorem sharesAt_add (h : b.add s p q = .ok (c, touched)) (s' : Side) (p' : Price) :
    c.sharesAt s' p' = b.sharesAt s' p' + if s' = s ∧ p' = p then q.toNat else 0 := by
  obtain ⟨x, hx, rfl⟩ := add_eq_ok h
  unfold sharesAt
  by_cases hs : s' = s
  · subst hs
    rw [onSide_setSide, BookSide.sharesAt_add hx]
    simp
  · rw [onSide_setSide_of_ne b x hs]
    simp [hs]

theorem sharesAt_reduce (h : b.reduce s p q = .ok (c, touched)) (s' : Side) (p' : Price) :
    c.sharesAt s' p' + (if s' = s ∧ p' = p then q.toNat else 0) = b.sharesAt s' p' := by
  obtain ⟨x, hx, rfl⟩ := reduce_eq_ok h
  unfold sharesAt
  by_cases hs : s' = s
  · subst hs
    rw [onSide_setSide, ← BookSide.sharesAt_reduce hx]
    simp
  · rw [onSide_setSide_of_ne b x hs]
    simp [hs]

theorem total_add (h : b.add s p q = .ok (c, touched)) (s' : Side) :
    (c.onSide s').total = (b.onSide s').total + if s' = s then q.toNat else 0 := by
  obtain ⟨x, hx, rfl⟩ := add_eq_ok h
  by_cases hs : s' = s
  · subst hs
    rw [onSide_setSide, BookSide.total_add hx, if_pos rfl]
  · rw [onSide_setSide_of_ne b x hs, if_neg hs, Nat.add_zero]

theorem total_reduce (h : b.reduce s p q = .ok (c, touched)) (s' : Side) :
    (c.onSide s').total + (if s' = s then q.toNat else 0) = (b.onSide s').total := by
  obtain ⟨x, hx, rfl⟩ := reduce_eq_ok h
  by_cases hs : s' = s
  · subst hs
    rw [onSide_setSide, ← BookSide.total_reduce hx, if_pos rfl]
  · rw [onSide_setSide_of_ne b x hs, if_neg hs, Nat.add_zero]

/-! ### Publishing and marking -/

@[simp] theorem inside_empty (i : Instrument) : (empty i).inside = .empty := by
  simp [inside, empty, Quote.empty]

theorem inside_eq_of_onSide (h : ∀ s, c.onSide s = b.onSide s) : c.inside = b.inside := by
  have hbids : c.bids = b.bids := h .buy
  have hasks : c.asks = b.asks := h .sell
  rw [inside, inside, hbids, hasks]

theorem Filled.of_onSide (hb : b.Filled) (h : ∀ s, c.onSide s = b.onSide s) : c.Filled :=
  fun s => h s ▸ hb s

@[simp] theorem instrument_publish (b : Book) : b.publish.1.instrument = b.instrument := by
  unfold publish
  dsimp only
  split <;> rfl

@[simp] theorem onSide_publish (b : Book) (s : Side) : b.publish.1.onSide s = b.onSide s := by
  unfold publish
  dsimp only
  split
  · rfl
  · cases s <;> rfl

/-- What is published last is the inside. -/
theorem lastInside_publish (b : Book) : b.publish.1.lastInside = b.inside := by
  unfold publish
  dsimp only
  split
  · exact Eq.symm ‹_›
  · rfl

theorem publish_snd (b : Book) :
    b.publish.2 = if b.inside = b.lastInside then none else some b.inside := by
  unfold publish
  dsimp only
  split <;> rfl

@[simp] theorem onSide_markCorrupted (b : Book) (fault : BookFault) (s : Side) :
    (b.markCorrupted fault).onSide s = b.onSide s := by
  cases s <;> rfl

@[simp] theorem corruption_publish (b : Book) : b.publish.1.corruption = b.corruption := by
  unfold publish
  dsimp only
  split <;> rfl

theorem isCorrupted_eq_false_iff {b : Book} : b.isCorrupted = false ↔ b.corruption = none := by
  rw [isCorrupted, Option.isSome_eq_false_iff, Option.isNone_iff_eq_none]

/-- A book that is open takes the fault as its mark. -/
theorem corruption_markCorrupted {b : Book} (h : b.corruption = none) (fault : BookFault) :
    (b.markCorrupted fault).corruption = some fault := by
  rw [markCorrupted, h]
  rfl

@[simp] theorem isCorrupted_markCorrupted (b : Book) (fault : BookFault) :
    (b.markCorrupted fault).isCorrupted = true := by
  unfold isCorrupted markCorrupted
  cases b.corruption <;> rfl

end TopOfBook.Book
