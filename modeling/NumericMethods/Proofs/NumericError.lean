/-
  NumericMethods/Proofs/NumericError.lean
  =======================================
  **Results that may fail, one after the other.**

  A computation of two parts has a value exactly if both parts have one
  (`bind_eq_ok_iff`), and fails with the first failure (`bind_eq_error_iff`).  A failure of
  evaluation stays one when it is lifted to a method (`liftDomain_eq_error`); in particular
  it is never the report of a budget that is used up.
-/
import NumericMethods.NumericError

namespace NumericMethods

variable {α ε τ υ : Type}

theorem bind_eq_ok_iff {x : Except ε τ} {k : τ → Except ε υ} {w : υ} :
    x >>= k = .ok w ↔ ∃ v, x = .ok v ∧ k v = .ok w := by
  cases x with
  | error _ =>
    refine ⟨nofun, ?_⟩
    rintro ⟨v, hv, -⟩
    cases hv
  | ok v =>
    refine ⟨fun h => ⟨v, rfl, h⟩, ?_⟩
    rintro ⟨v', hv, h⟩
    cases hv
    exact h

theorem bind_eq_error_iff {x : Except ε τ} {k : τ → Except ε υ} {e : ε} :
    x >>= k = .error e ↔ x = .error e ∨ ∃ v, x = .ok v ∧ k v = .error e := by
  cases x with
  | error e' =>
    constructor
    · intro h
      cases h
      exact .inl rfl
    · rintro (h | ⟨v, hv, -⟩)
      · cases h
        rfl
      · cases hv
  | ok v =>
    constructor
    · exact fun h => .inr ⟨v, rfl, h⟩
    · rintro (h | ⟨v', hv, h⟩)
      · cases h
      · cases hv
        exact h

theorem mapError_eq_ok {ε' : Type} {f : ε → ε'} {r : Except ε τ} {v : τ}
    (h : r.mapError f = .ok v) : r = .ok v := by
  cases r with
  | error e => cases h
  | ok u =>
    cases h
    rfl

theorem liftDomain_eq_ok_iff {x : Except (DomainError α) τ} {v : τ} :
    liftDomain x = .ok v ↔ x = .ok v := by
  cases x with
  | error d => exact iff_of_false nofun nofun
  | ok w =>
    constructor
    · intro h
      cases h
      rfl
    · intro h
      cases h
      rfl

theorem liftDomain_eq_error {x : Except (DomainError α) τ} {e : NumericError α}
    (h : liftDomain x = .error e) : ∃ d, e = .domain d := by
  cases x with
  | error d =>
    cases h
    exact ⟨d, rfl⟩
  | ok v => cases h

end NumericMethods
