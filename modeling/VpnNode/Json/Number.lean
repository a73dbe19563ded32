import VpnNode.Json.Basic

/-!
# Reading JSON numbers

A numeral without fraction and exponent that fits into 64 bits is a whole number.
Any other number is a binary fraction: its leading digits, as many as fit into 64
bits, are rounded, and the result is scaled by a rounded power of ten and rounded
again. A number too large for a binary fraction is out of range.
-/

namespace VpnNode.Json

/-- The significant digits of a number and the power of ten that scales them. -/
structure Scaled where
  significand : Nat
  exponent : Int

/-- Takes digits while the significand fits into 64 bits; gives the
    significand, the number of digits taken, and what is left. -/
def takeDigits (significand taken : Nat) : List Char → Nat × Nat × List Char
  | [] => (significand, taken, [])
  | c :: r =>
    if c.isDigit ∧ significand * 10 + (c.toNat - 48) < UInt64.size then
      takeDigits (significand * 10 + (c.toNat - 48)) (taken + 1) r
    else (significand, taken, c :: r)

/-- Scales a rounded significand by `10 ^ exponent`. Powers beyond `10 ^ 308` are
    divided out in steps. -/
def scale (x : Binary64) (exponent : Int) : Nat → Option Binary64
  | 0 => some x
  | fuel + 1 =>
    if exponent.natAbs ≤ 308 then
      let power := Binary64.ofRatio false (Nat.pow 10 exponent.natAbs) 1
      if 0 ≤ exponent then
        match x.scaleUp power with
        | .infinite _ => none
        | y => some y
      else some (x.scaleDown power)
    else if x.equals .zero then some x
    else if 0 ≤ exponent then none
    else scale (x.scaleDown (Binary64.ofRatio false (Nat.pow 10 308) 1)) (exponent + 308) fuel

/-- The binary fraction of scaled digits under a sign, unless it is too large. -/
def Scaled.real? (s : Scaled) (negative : Bool) : Option Number :=
  (scale (Binary64.ofInt s.significand) s.exponent 8).map fun
    | .finite _ code => .real (.finite negative code)
    | x => .real x

/-- Reads the exponent that follows a mark; gives `none` if no digit follows, and
    else the number, if it is in range, and the rest. -/
def readExponent (negative : Bool) (s : Scaled) (cs : List Char) :
    Option (Option Number × List Char) :=
  let (down, cs) := match cs with
    | '+' :: r => (false, r)
    | '-' :: r => (true, r)
    | r => (false, r)
  let digits := cs.takeWhile Char.isDigit
  let rest := cs.dropWhile Char.isDigit
  if digits.isEmpty then none
  else
    let e := Decimal.value digits
    if e ≤ Int32.maxValue.toInt then
      let e : Int := if down then -e else e
      some (Scaled.real? ⟨s.significand, s.exponent + e⟩ negative, rest)
    else if down ∨ s.significand = 0 then
      some (Scaled.real? ⟨0, 0⟩ negative, rest)
    else some (none, rest)

/-- Reads what may follow the digits before the point of a number that is no whole
    number: an exponent, or nothing. -/
def readTail (negative : Bool) (s : Scaled) : List Char → Option (Option Number × List Char)
  | 'e' :: r => readExponent negative s r
  | 'E' :: r => readExponent negative s r
  | r => some (s.real? negative, r)

/-- Reads the digits after the point. -/
def readFraction (negative : Bool) (s : Scaled) (cs : List Char) :
    Option (Option Number × List Char) :=
  let (significand, taken, rest) := takeDigits s.significand 0 cs
  let dropped := rest.takeWhile Char.isDigit
  if taken = 0 ∧ dropped.isEmpty then none
  else readTail negative ⟨significand, s.exponent - taken⟩ (rest.dropWhile Char.isDigit)

/-- The whole number under a sign. Minus zero, and numbers below the range of 64
    bits, are binary fractions. -/
def wholeNumber (negative : Bool) (n : Nat) : Number :=
  if negative then
    if n = 0 then .real (.signedZero true)
    else if Int64.minValue.toInt ≤ -n then .integer (-n)
    else .real (Binary64.ofInt (-n))
  else .integer n

/-- Reads a number whose sign has been read. Gives `none` where the grammar is
    broken, and else the number, if it is in range, and the rest. -/
def readUnsigned (negative : Bool) (cs : List Char) : Option (Option Number × List Char) :=
  let digits := cs.takeWhile Char.isDigit
  match digits with
  | [] => none
  | d :: more =>
    if d = '0' ∧ !more.isEmpty then none
    else
      let (significand, taken, _) := takeDigits 0 0 digits
      let s : Scaled := ⟨significand, (digits.length - taken : Nat)⟩
      match cs.dropWhile Char.isDigit with
      | '.' :: r => readFraction negative s r
      | 'e' :: r => readExponent negative s r
      | 'E' :: r => readExponent negative s r
      | r =>
        if taken = digits.length then some (some (wholeNumber negative significand), r)
        else some (s.real? negative, r)

end VpnNode.Json
