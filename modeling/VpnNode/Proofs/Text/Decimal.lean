import VpnNode.Text.Decimal

/-!
# The digits of numerals

Main statements:

* `exists_toDigits_eq`, `head?_toDigits`: what the digits of a number begin with.
* `value_toDigits`: the digits of a number have its value.
-/

namespace VpnNode

/-- A test tells characters apart. -/
theorem Text.ne_of_test {p : Char → Bool} {c d : Char} (hc : p c = true) (hd : p d = false) :
    c ≠ d := by
  rintro rfl
  rw [hc] at hd
  exact Bool.noConfusion hd

namespace Decimal

theorem isDigit_of_mem_toDigits {n : Nat} {c : Char} (h : c ∈ Nat.toDigits 10 n) :
    c.isDigit = true :=
  Nat.isDigit_of_mem_toDigits (by decide) (by decide) h

theorem exists_toDigits_eq (n : Nat) : ∃ d more, Nat.toDigits 10 n = d :: more ∧ d.isDigit := by
  have hnumeral := isNumeral_toDigits n
  cases heq : Nat.toDigits 10 n with
  | nil =>
    rw [heq] at hnumeral
    cases hnumeral
  | cons d more => exact ⟨d, more, rfl, isDigit_of_mem_toDigits (heq ▸ List.mem_cons_self)⟩

/-- Only zero is written with a leading zero. -/
theorem head?_toDigits {n : Nat} (h : (Nat.toDigits 10 n).head? = some '0') : n = 0 := by
  induction n using Nat.strongRecOn with
  | ind n ih =>
    by_cases hn : n < 10
    · have hzero : ∀ n < 10, Nat.digitChar n = '0' → n = 0 := by decide
      rw [Nat.toDigits_of_lt_base hn] at h
      exact hzero n hn (Option.some.inj h)
    · rw [Nat.toDigits_of_base_le (by decide) (Nat.not_lt.1 hn)] at h
      obtain ⟨d, more, heq, -⟩ := exists_toDigits_eq (n / 10)
      have := ih (n / 10) (by omega) (by rwa [heq] at h ⊢)
      omega

theorem value_toDigits (n : Nat) : value (Nat.toDigits 10 n) = n := Nat.ofDigitChars_ten_toDigits

theorem isNumeral_iff {cs : List Char} : isNumeral cs ↔ cs ≠ [] ∧ ∀ c ∈ cs, c.isDigit := by
  simp [isNumeral]

end Decimal

end VpnNode
