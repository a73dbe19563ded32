/-!
# Hexadecimal octets

An octet is written as two hexadecimal digits, the high one first, in lower
case. Reading takes either case.

Main statements:

* `digit?_digit`: a digit is read back.
* `ofChars?_chars`: octets are read back from their digits.
-/

namespace VpnNode.Hex

/-- The lower-case digit of a number below sixteen. -/
def digit (n : Nat) : Char :=
  if n < 10 then Char.ofNat (48 + n) else Char.ofNat (87 + n)

/-- The value of a digit in either case. -/
def digit? (c : Char) : Option Nat :=
  if '0' ≤ c ∧ c ≤ '9' then some (c.toNat - 48)
  else if 'a' ≤ c ∧ c ≤ 'f' then some (c.toNat - 87)
  else if 'A' ≤ c ∧ c ≤ 'F' then some (c.toNat - 55)
  else none

theorem digit?_digit : ∀ n < 16, digit? (digit n) = some n := by decide

theorem digit?_lt {c : Char} {n : Nat} (h : digit? c = some n) : n < 16 := by
  unfold digit? at h
  have key : ∀ {a : Char}, c ≤ a → c.toNat ≤ a.toNat := fun h => h
  split at h
  · rename_i hc; have := key hc.2; simp at h this; omega
  · split at h
    · rename_i hc; have := key hc.2; simp at h this; omega
    · split at h
      · rename_i hc; have := key hc.2; simp at h this; omega
      · simp at h

/-- The digits of octets. -/
def chars (bs : List UInt8) : List Char :=
  bs.flatMap fun b => [digit (b.toNat / 16), digit (b.toNat % 16)]

/-- The text of octets. -/
def render (bs : List UInt8) : String := String.ofList (chars bs)

/-- Reads pairs of digits. -/
def ofChars? : List Char → Option (List UInt8)
  | [] => some []
  | [_] => none
  | h :: l :: r => do
    let high ← digit? h
    let low ← digit? l
    return UInt8.ofNat (high * 16 + low) :: (← ofChars? r)

/-- Reads the text of octets. -/
def parse? (s : String) : Option (List UInt8) := ofChars? s.toList

/-- Octets are read back from their digits. -/
theorem ofChars?_chars (bs : List UInt8) : ofChars? (chars bs) = some bs := by
  induction bs with
  | nil => rfl
  | cons b r ih =>
    have hb := b.toNat_lt
    have h1 := digit?_digit (b.toNat / 16) (by omega)
    have h2 := digit?_digit (b.toNat % 16) (by omega)
    have h3 : UInt8.ofNat (b.toNat / 16 * 16 + b.toNat % 16) = b := by
      rw [show b.toNat / 16 * 16 + b.toNat % 16 = b.toNat by omega, UInt8.ofNat_toNat]
    unfold chars at ih ⊢
    simp only [List.flatMap_cons, List.cons_append, List.nil_append, ofChars?, h1, h2, ih]
    simp only [Option.bind_eq_bind, Option.bind_some, h3, Option.pure_def]

end VpnNode.Hex
