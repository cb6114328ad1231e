import Mathlib.Init

/-!
# Results and errors

When a computation in two steps, or one whose result is dropped, ends well and when in an error, and
when two computations end alike.
-/

namespace LicenseExpr

variable {ε α β : Type} {r : Except ε α} {f : α → Except ε β} {b : β} {error : ε}

theorem bind_eq_ok_iff : r >>= f = .ok b ↔ ∃ a, r = .ok a ∧ f a = .ok b := by
  cases r <;> simp [bind, Except.bind]

theorem bind_eq_error_iff :
    r >>= f = .error error ↔ r = .error error ∨ ∃ a, r = .ok a ∧ f a = .error error := by
  cases r <;> simp [bind, Except.bind]

theorem mapError_eq_ok_iff {ε' : Type} {f : ε → ε'} {a : α} : r.mapError f = .ok a ↔ r = .ok a := by
  cases r <;> constructor <;> rintro ⟨⟩ <;> rfl

theorem map_unit_eq_ok_iff : r.map (fun _ => ()) = .ok () ↔ ∃ a, r = .ok a := by
  cases r <;> simp [Except.map]

theorem map_unit_eq_error_iff : r.map (fun _ => ()) = .error error ↔ r = .error error := by
  cases r <;> simp [Except.map]

/-! ## Two computations -/

/-- Both end well with results related by `V`, or both in errors related by `E`. -/
inductive EndsAlike {ε ε' α α' : Type} (E : ε → ε' → Prop) (V : α → α' → Prop) :
    Except ε α → Except ε' α' → Prop where
  | ok {a : α} {a' : α'} : V a a' → EndsAlike E V (.ok a) (.ok a')
  | error {e : ε} {e' : ε'} : E e e' → EndsAlike E V (.error e) (.error e')

theorem EndsAlike.bind {ε ε' α α' β β' : Type} {E : ε → ε' → Prop} {V : α → α' → Prop}
    {W : β → β' → Prop} {r : Except ε α} {r' : Except ε' α'} {f : α → Except ε β}
    {f' : α' → Except ε' β'} (h : EndsAlike E V r r')
    (hf : ∀ {a : α} {a' : α'}, V a a' → EndsAlike E W (f a) (f' a')) :
    EndsAlike E W (r >>= f) (r' >>= f') := by
  cases h with
  | ok hv => exact hf hv
  | error he => exact .error he

theorem endsAlike_eq_iff {r' : Except ε α} : EndsAlike Eq Eq r r' ↔ r = r' := by
  constructor
  · rintro (rfl | rfl) <;> rfl
  · rintro rfl
    cases r with
    | ok a => exact .ok rfl
    | error e => exact .error rfl

end LicenseExpr
