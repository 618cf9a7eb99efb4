/-! What is made of a result, or done with it, needs that result first. Calls are told apart by what
they leave behind: one made in place settles as the result says when nothing is left of a call that
is refused. -/

namespace TopOfBook

variable {ε α β σ : Type} {x : Except ε α}

theorem exists_of_map_eq_ok {f : α → β} {y : β} (h : x.map f = .ok y) :
    ∃ a, x = .ok a ∧ f a = y := by
  cases x with
  | error fault => cases h
  | ok a => exact ⟨a, rfl, Except.ok.inj h⟩

theorem exists_of_bind_eq_ok {f : α → Except ε β} {y : β} (h : x >>= f = .ok y) :
    ∃ a, x = .ok a ∧ f a = .ok y := by
  cases x with
  | error fault => cases h
  | ok a => exact ⟨a, rfl, h⟩

/-- A call in place, when one that is refused leaves what it was made on as it was. -/
def settle (s : σ) : Except ε (σ × α) → σ × Except ε α
  | .ok (s', a) => (s', .ok a)
  | .error fault => (s, .error fault)

/-- What is left of a call is what it leads to, or what it was made on. -/
theorem fst_settle (s : σ) (r : Except ε (σ × α)) :
    (settle s r).1 = (r.map Prod.fst).toOption.getD s := by
  rcases r with fault | ⟨s', a⟩ <;> rfl

/-- To settle a call with another answer is to settle it, and to change the answer. -/
theorem settle_map (s : σ) (r : Except ε (σ × α)) (f : α → β) :
    settle s (r.map fun (s', a) => (s', f a)) = ((settle s r).1, (settle s r).2.map f) := by
  rcases r with fault | ⟨s', a⟩ <;> rfl

end TopOfBook
