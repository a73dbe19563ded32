/-!
# Results of operations that can fail

When the parts of an operation succeed, and with what.
-/

namespace VpnNode

theorem bind_eq_ok_iff {x : Except ε α} {f : α → Except ε β} {b : β} :
    (x >>= f) = .ok b ↔ ∃ a, x = .ok a ∧ f a = .ok b := by
  cases x <;> simp [bind, Except.bind]

theorem bind_eq_error_iff {x : Except ε α} {f : α → Except ε β} {e : ε} :
    (x >>= f) = .error e ↔ x = .error e ∨ ∃ a, x = .ok a ∧ f a = .error e := by
  cases x <;> simp [bind, Except.bind]

theorem mapError_eq_ok_iff {x : Except ε α} {f : ε → ε'} {a : α} :
    x.mapError f = .ok a ↔ x = .ok a := by
  cases x with
  | error e =>
    show (Except.error (f e) : Except ε' α) = .ok a ↔ _
    simp
  | ok b =>
    show (Except.ok b : Except ε' α) = .ok a ↔ _
    simp

theorem mapError_eq_error_iff {x : Except ε α} {f : ε → ε'} {e : ε'} :
    x.mapError f = .error e ↔ ∃ e', x = .error e' ∧ e = f e' := by
  cases x with
  | error e' =>
    show (Except.error (f e') : Except ε' α) = .error e ↔ _
    simp [eq_comm]
  | ok a =>
    show (Except.ok a : Except ε' α) = .error e ↔ _
    simp

theorem isOk_iff {x : Except ε α} : x.isOk ↔ ∃ a, x = .ok a := by
  cases x <;> simp [Except.isOk, Except.toBool]

theorem isOk_mapError (x : Except ε α) (f : ε → ε') : (x.mapError f).isOk = x.isOk := by
  cases x <;> rfl

end VpnNode
