import Mathlib.Data.List.Permutation
import TopOfBook.Proofs.SideLedger

/-! An addition or a reduction says whether it touched the best level of its side, and says so
truly: the best level stays as it was where the answer is no, and is another one where the answer
is yes and there were shares to move. A call in place which is refused leaves nothing behind. -/

namespace TopOfBook.BookSide

variable {side : Side} {b c : BookSide side} {p : Price} {q : Quantity}

/-! ### Another best level -/

theorem exists_best_of_isBest (h : b.isBest p = true) : ∃ q, b.best? = some ⟨p, q⟩ := by
  obtain ⟨⟨p', q⟩, hbest, hprice⟩ := (Option.any_eq_true _ _).1 h
  obtain rfl : p' = p := of_decide_eq_true hprice
  exact ⟨q, hbest⟩

/-- Sides with other shares at the price of the best level of either have other best levels. -/
theorem best?_ne_of_sharesAt_ne (hbest : b.isBest p = true ∨ c.isBest p = true)
    (hne : c.sharesAt p ≠ b.sharesAt p) : c.best? ≠ b.best? := by
  intro hsame
  have hb : b.isBest p = true := by
    rcases hbest with h | h
    · exact h
    · rwa [isBest, hsame] at h
  obtain ⟨q, hq⟩ := exists_best_of_isBest hb
  have hshares {x : BookSide side} (hx : x.best? = some ⟨p, q⟩) : x.sharesAt p = q.toNat := by
    rw [sharesAt, (best?_eq_some_iff.1 hx).1, Option.elim_some]
  exact hne ((hshares (hsame.trans hq)).trans (hshares hq).symm)

theorem best?_ne_add_of_touched (h : b.add p q = .ok (c, true)) (hq : 0 < q.toNat) :
    c.best? ≠ b.best? := by
  have hshares := sharesAt_add h p
  rw [if_pos rfl] at hshares
  rcases add_eq_ok_iff.1 h with ⟨-, -, hfalse⟩ | ⟨-, -, -, -, hbest⟩
  · cases hfalse
  · exact best?_ne_of_sharesAt_ne (.inr hbest.symm) (by omega)

theorem best?_ne_reduce_of_touched (h : b.reduce p q = .ok (c, true)) (hq : 0 < q.toNat) :
    c.best? ≠ b.best? := by
  have hshares := sharesAt_reduce h p
  rw [if_pos rfl] at hshares
  obtain ⟨-, -, -, -, hbest⟩ := reduce_eq_ok_iff.1 h
  exact best?_ne_of_sharesAt_ne (.inl hbest.symm) (by omega)

/-! ### What a call says -/

/-- What a call in place says of the best level is true. -/
structure SaysTruly (b : BookSide side) (q : Quantity)
    (called : BookSide side × Except BookFault Bool) : Prop where
  untouched : called.2 = .ok false → called.1.best? = b.best?
  touched : called.2 = .ok true → 0 < q.toNat → called.1.best? ≠ b.best?
  refused : ∀ fault, called.2 = .error fault → called.1.best? = b.best?

theorem saysTruly_settle {r : Except BookFault (BookSide side × Bool)}
    (huntouched : ∀ c, r = .ok (c, false) → c.best? = b.best?)
    (htouched : ∀ c, r = .ok (c, true) → 0 < q.toNat → c.best? ≠ b.best?) :
    SaysTruly b q (settle b r) := by
  rcases r with fault | ⟨c, _ | _⟩
  · exact ⟨nofun, nofun, fun _ _ => rfl⟩
  · exact ⟨fun _ => huntouched c rfl, nofun, nofun⟩
  · exact ⟨nofun, fun _ => htouched c rfl, nofun⟩

/-- Whatever was called before, the answer to an addition and to a reduction is true of the best
level, price and shares. What is refused leaves the whole side as it was. -/
theorem run_touches_truly (side : Side) (calls : List SideCall) (p : Price) (q : Quantity) :
    let b := calls.foldl after (.empty : BookSide side)
    SaysTruly b q (b.addInPlace p q) ∧ SaysTruly b q (b.reduceInPlace p q) ∧
      b.addInPlace p q = settle b (b.add p q) ∧
      b.reduceInPlace p q = settle b (b.reduce p q) := by
  intro b
  have hfilled : b.Filled := by
    rw [show b = (run side calls).1 from foldl_after side calls]
    exact (follows_run side calls).filled
  have hadd := addInPlace_eq b p q
  have hreduce := reduceInPlace_eq hfilled p q
  refine ⟨hadd ▸ ?_, hreduce ▸ ?_, hadd, hreduce⟩
  · exact saysTruly_settle (fun _ => best?_add_of_untouched) fun _ => best?_ne_add_of_touched
  · exact saysTruly_settle (fun _ => best?_reduce_of_untouched)
      fun _ => best?_ne_reduce_of_touched

/-- A bid above the best one touches it, and so does taking the best one off. -/
theorem run_touches_truly_betterBid :
    let calls : List SideCall := [.add ⟨100⟩ ⟨10⟩, .add ⟨99⟩ ⟨5⟩]
    let b := calls.foldl after (.empty : BookSide .buy)
    let raised := b.addInPlace ⟨101⟩ ⟨5⟩
    let lowered := b.reduceInPlace ⟨100⟩ ⟨10⟩
    b.best? = some ⟨⟨100⟩, ⟨10⟩⟩ ∧
      (raised.2 = .ok true ∧ raised.1.best? = some ⟨⟨101⟩, ⟨5⟩⟩ ∧ raised.1.best? ≠ b.best?) ∧
      lowered.2 = .ok true ∧ lowered.1.best? = some ⟨⟨99⟩, ⟨5⟩⟩ ∧ lowered.1.best? ≠ b.best? := by
  dsimp only
  have hadd := (run_touches_truly .buy [.add ⟨100⟩ ⟨10⟩, .add ⟨99⟩ ⟨5⟩] ⟨101⟩ ⟨5⟩).1.touched
  have hreduce :=
    (run_touches_truly .buy [.add ⟨100⟩ ⟨10⟩, .add ⟨99⟩ ⟨5⟩] ⟨100⟩ ⟨10⟩).2.1.touched
  refine ⟨?_, ⟨?_, ?_, hadd ?_ (by decide)⟩, ?_, ?_, hreduce ?_ (by decide)⟩ <;> cbv

end TopOfBook.BookSide
