import Mathlib.Data.Nat.Digits.Defs
import VpnNode.Proofs.Text.Decimal

/-!
# Numerals and the numbers that they stand for

A numeral stands for its positional value, whatever its length. The number that is read from
it is written back without the zeros in front.

Main statements:

* `value_eq_ofDigits`: the value of a numeral by the powers of ten.
* `toDigits_value`: a numeral that is written back loses its leading zeros.
* `parse?_eq_some_iff`: which texts are read, and as what.
-/

namespace VpnNode.Decimal

/-- The value of a character as a digit. -/
def digit (c : Char) : Nat := c.toNat - '0'.toNat

theorem digit_lt {c : Char} (h : c.isDigit) : digit c < 10 := by
  have hrange := Char.isDigit_iff_toNat.1 h
  have hzero : '0'.toNat = 48 := rfl
  have hnine : '9'.toNat = 57 := rfl
  unfold digit
  omega

theorem digitChar_digit {c : Char} (h : c.isDigit) : Nat.digitChar (digit c) = c := by
  have hrange := Char.isDigit_iff_toNat.1 h
  have hzero : '0'.toNat = 48 := rfl
  rw [← Char.toNat_inj, Nat.toNat_digitChar_of_lt_ten (digit_lt h), digit]
  omega

theorem toDigits_digit {c : Char} (h : c.isDigit) : Nat.toDigits 10 (digit c) = [c] := by
  rw [Nat.toDigits_of_lt_base (digit_lt h), digitChar_digit h]

theorem digit_pos {c : Char} (h : c.isDigit) (hzero : c ≠ '0') : 0 < digit c := by
  refine Nat.pos_of_ne_zero fun hdigit => hzero ?_
  rw [← digitChar_digit h, hdigit]
  rfl

/-! ## The value -/

theorem value_append (cs ds : List Char) :
    value (cs ++ ds) = value cs * 10 ^ ds.length + value ds := by
  unfold value
  rw [Nat.ofDigitChars_append, Nat.ofDigitChars_eq_ofDigitChars_zero, Nat.mul_comm]

theorem value_replicate_zero (n : Nat) : value (List.replicate n '0') = 0 := by
  rw [value, Nat.ofDigitChars_replicate_zero, Nat.mul_zero]

theorem value_singleton (c : Char) : value [c] = digit c := by
  rw [value, Nat.ofDigitChars_cons, Nat.ofDigitChars_nil, Nat.mul_zero, Nat.zero_add, digit]

theorem value_cons (c : Char) (cs : List Char) :
    value (c :: cs) = digit c * 10 ^ cs.length + value cs := by
  rw [← List.singleton_append, value_append, value_singleton]

/-- The last digit counts once, and each digit counts ten times as much as the one after it. -/
theorem value_eq_ofDigits (cs : List Char) : value cs = Nat.ofDigits 10 (cs.map digit).reverse := by
  induction cs with
  | nil => rfl
  | cons c cs ih =>
    rw [value_cons, ih, List.map_cons, List.reverse_cons, Nat.ofDigits_append,
      Nat.ofDigits_singleton, List.length_reverse, List.length_map, Nat.add_comm, Nat.mul_comm]

/-! ## Leading zeros -/

/-- The characters without leading zeros: a zero is leading if another character follows. -/
def withoutLeadingZeros : List Char → List Char
  | [] => []
  | [c] => [c]
  | c :: d :: cs => if c = '0' then withoutLeadingZeros (d :: cs) else c :: d :: cs

/-- Digits that follow a number other than zero are written after it. -/
theorem toDigits_ofDigitChars {cs : List Char} (hcs : ∀ c ∈ cs, c.isDigit) {n : Nat} (hn : 0 < n) :
    Nat.toDigits 10 (Nat.ofDigitChars 10 cs n) = Nat.toDigits 10 n ++ cs := by
  induction cs generalizing n with
  | nil => rw [Nat.ofDigitChars_nil, List.append_nil]
  | cons c cs ih =>
    obtain ⟨hc, hcs⟩ := List.forall_mem_cons.1 hcs
    have hdigit : Nat.toDigits 10 n ++ [c] = Nat.toDigits 10 (10 * n + digit c) := by
      rw [← Nat.toDigits_append_toDigits (by decide) hn (digit_lt hc), toDigits_digit hc]
    calc Nat.toDigits 10 (Nat.ofDigitChars 10 (c :: cs) n)
        = Nat.toDigits 10 (Nat.ofDigitChars 10 cs (10 * n + digit c)) := by
          rw [Nat.ofDigitChars_cons]
          rfl
      _ = Nat.toDigits 10 (10 * n + digit c) ++ cs := ih hcs (by omega)
      _ = Nat.toDigits 10 n ++ c :: cs := by
          rw [← hdigit, List.append_assoc, List.singleton_append]

/-- A numeral that is written back loses its leading zeros. -/
theorem toDigits_value {cs : List Char} (h : isNumeral cs) :
    Nat.toDigits 10 (value cs) = withoutLeadingZeros cs := by
  obtain ⟨hne, hcs⟩ := isNumeral_iff.1 h
  fun_induction withoutLeadingZeros cs with
  | case1 => exact absurd rfl hne
  | case2 c =>
    rw [value_singleton, toDigits_digit (hcs c List.mem_cons_self)]
  | case3 d cs ih =>
    have hrest := (List.forall_mem_cons.1 hcs).2
    have hzero : digit '0' = 0 := rfl
    rw [value_cons, hzero, Nat.zero_mul, Nat.zero_add]
    exact ih (isNumeral_iff.2 ⟨List.cons_ne_nil d cs, hrest⟩) (List.cons_ne_nil d cs) hrest
  | case4 c d cs hzero =>
    obtain ⟨hc, hrest⟩ := List.forall_mem_cons.1 hcs
    rw [value, Nat.ofDigitChars_cons, Nat.mul_zero, Nat.zero_add]
    show Nat.toDigits 10 (Nat.ofDigitChars 10 (d :: cs) (digit c)) = c :: d :: cs
    rw [toDigits_ofDigitChars hrest (digit_pos hc hzero), toDigits_digit hc,
      List.singleton_append]

/-! ## Texts -/

/-- A text is read as a number if it consists of digits, and of one at least, and the number is
    its value. -/
theorem parse?_eq_some_iff {text : String} {n : Nat} :
    parse? text = some n ↔
      (text ≠ "" ∧ ∀ c ∈ text.toList, '0'.toNat ≤ c.toNat ∧ c.toNat ≤ '9'.toNat) ∧
        Nat.ofDigits 10 (text.toList.map digit).reverse = n := by
  have hnumeral : isNumeral text.toList ↔
      text ≠ "" ∧ ∀ c ∈ text.toList, '0'.toNat ≤ c.toNat ∧ c.toNat ≤ '9'.toNat := by
    simp only [isNumeral_iff, ne_eq, String.toList_eq_nil_iff, Char.isDigit_iff_toNat]
  rw [← hnumeral, ← value_eq_ofDigits, parse?]
  split
  · rename_i h
    simp [h]
  · rename_i h
    simp [h]

/-- A number that was read is written as the text without its leading zeros. -/
theorem toList_render_of_parse? {text : String} {n : Nat} (h : parse? text = some n) :
    (render n).toList = withoutLeadingZeros text.toList := by
  have hnumeral : isNumeral text.toList := parse?_isSome_iff.1 (Option.isSome_of_eq_some h)
  rw [parse?, if_pos hnumeral, Option.some.injEq] at h
  rw [render, Nat.toList_repr, ← h, toDigits_value hnumeral]

example : withoutLeadingZeros "00120".toList = "120".toList := rfl

example : withoutLeadingZeros "000".toList = "0".toList := rfl

end VpnNode.Decimal
