import VpnNode.Number.Binary64

/-!
# The shortest decimal

The decimal text of a finite number has the fewest digits that read back as it,
and of those the ones nearest to it. Up to seventeen digits are tried, and for
each count the two neighbours of the number on that decimal grid.
-/

namespace VpnNode.Shortest

/-- Digits and a decimal exponent: `digits * 10 ^ exponent`. -/
structure Decimal where
  digits : Nat
  exponent : Int
  deriving DecidableEq, Repr

/-- The number of decimal digits of a number. -/
def width (n : Nat) : Nat := (Nat.toDigits 10 n).length

/-- The least `k` with `num / den < 10 ^ k`, for a positive quotient. -/
def magnitude (num den : Nat) : Int :=
  if den ≤ num then width (num / den)
  else 1 - (width ((den + num - 1) / num - 1) : Int)

/-- Does a decimal round to the code? -/
def readsBack (code : Nat) (d : Decimal) : Bool :=
  Binary64.ofDecimal false d.digits d.exponent ==
    (if h : code < Binary64.codeLimit then .finite false ⟨code, h⟩ else .infinite false)

/-- The decimal of `n` digits that reads back as the code and is nearest to it. -/
def onGrid? (code n : Nat) : Option Decimal :=
  let (num, den) := Binary64.ratio code
  let e := magnitude num den - n
  let (p, q) := if 0 ≤ e then (num, den * Nat.pow 10 e.toNat)
    else (num * Nat.pow 10 (-e).toNat, den)
  let lower : Decimal := ⟨p / q, e⟩
  let upper : Decimal := ⟨p / q + 1, e⟩
  let r := p % q
  let nearLower := 2 * r < q ∨ (2 * r = q ∧ lower.digits % 2 = 0)
  match readsBack code lower, readsBack code upper with
  | true, true => some (if nearLower then lower else upper)
  | true, false => some lower
  | false, true => some upper
  | false, false => none

/-- Removes trailing zeros from digits that are not zero. -/
def trimZeros (d : Decimal) : Nat → Decimal
  | 0 => d
  | fuel + 1 =>
    if d.digits ≠ 0 ∧ d.digits % 10 = 0 then trimZeros ⟨d.digits / 10, d.exponent + 1⟩ fuel else d

/-- The shortest decimal of a magnitude. -/
def ofCode (code : Nat) : Decimal :=
  if code = 0 then ⟨0, 0⟩
  else
    match (List.range 17).findSome? (fun n => onGrid? code (n + 1)) with
    | some d => trimZeros d 20
    | none => ⟨code, 0⟩

/-- The digits and the place of the point: the value is `0.digits * 10 ^ point`. -/
def Decimal.digitsAndPoint (d : Decimal) : List Char × Int :=
  let cs := Nat.toDigits 10 d.digits
  (cs, cs.length + d.exponent)

/-- A run of zeros. -/
def zeros (n : Nat) : List Char := List.replicate n '0'

/-- Positional notation: never an exponent, and `.0` after a whole number. -/
def Decimal.positional (d : Decimal) : List Char :=
  let (cs, point) := d.digitsAndPoint
  if d.digits = 0 then ['0', '.', '0']
  else if point ≤ 0 then '0' :: '.' :: zeros (-point).toNat ++ cs
  else if (cs.length : Int) ≤ point then cs ++ zeros (point.toNat - cs.length) ++ ['.', '0']
  else cs.take point.toNat ++ '.' :: cs.drop point.toNat

/-- Scientific notation: one digit, the others after a point, and the exponent. -/
def Decimal.scientific (d : Decimal) : List Char :=
  let (cs, point) := d.digitsAndPoint
  let e := point - 1
  let mark := 'e' :: (if e < 0 then '-' :: Nat.toDigits 10 e.natAbs else Nat.toDigits 10 e.natAbs)
  match cs with
  | [c] => c :: mark
  | c :: r => c :: '.' :: r ++ mark
  | [] => mark

/-- Positional notation while the point lies within a few places of the digits,
    scientific notation otherwise. -/
def Decimal.compact (d : Decimal) : List Char :=
  let (_, point) := d.digitsAndPoint
  if d.digits = 0 ∨ (-5 < point ∧ point ≤ 16) then d.positional else d.scientific

end VpnNode.Shortest
