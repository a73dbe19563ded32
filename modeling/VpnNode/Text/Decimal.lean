/-!
# Decimal numerals

A numeral is a non-empty run of the ASCII digits. It stands for its positional
value, whatever its length; leading zeros change nothing.

Main statements:

* `parse?_render`: a number is read back from its own numeral.
* `parse?_isSome_iff`: exactly the non-empty runs of digits are numerals.
-/

namespace VpnNode.Decimal

/-- Is every character an ASCII digit, and is there one? -/
def isNumeral (cs : List Char) : Bool := !cs.isEmpty && cs.all Char.isDigit

/-- The positional value of a run of digits. -/
def value (cs : List Char) : Nat := Nat.ofDigitChars 10 cs 0

/-- Reads a numeral. -/
def parse? (s : String) : Option Nat :=
  if isNumeral s.toList then some (value s.toList) else none

/-- The numeral of a number, without leading zeros. -/
def render (n : Nat) : String := n.repr

/-- The numeral of an integer: a minus sign stands before the digits of a
    negative number. -/
def renderInt (n : Int) : String :=
  if n < 0 then "-" ++ render n.natAbs else render n.natAbs

theorem isNumeral_toDigits (n : Nat) : isNumeral (Nat.toDigits 10 n) := by
  simp only [isNumeral, Bool.and_eq_true, Bool.not_eq_true', List.isEmpty_eq_false_iff,
    List.all_eq_true]
  refine ⟨?_, fun c hc => Nat.isDigit_of_mem_toDigits (by decide) (by decide) hc⟩
  have := Nat.repr_ne_empty (n := n)
  intro h
  exact this (by rw [← String.toList_inj, Nat.toList_repr, h]; rfl)

/-- A number is read back from its own numeral. -/
@[simp] theorem parse?_render (n : Nat) : parse? (render n) = some n := by
  simp [parse?, render, Nat.toList_repr, isNumeral_toDigits, value, Nat.ofDigitChars_ten_toDigits]

/-- Exactly the non-empty runs of digits are numerals. -/
theorem parse?_isSome_iff {s : String} : (parse? s).isSome ↔ isNumeral s.toList := by
  unfold parse?; split <;> simp_all

end VpnNode.Decimal
