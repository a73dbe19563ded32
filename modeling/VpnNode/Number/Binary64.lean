/-!
# Binary floating point

Numbers of the format `binary64`. A finite magnitude is named by its code, the
63 bits that hold its exponent and its fraction; magnitudes are ordered as their
codes are. Rounding is to the nearest number, a tie going to the even code.

Main statement:

* `isAtMostZero_eq_false_iff`: what is not zero or below is above zero or a NaN.
-/

namespace VpnNode

/-- One more than the largest code of a finite magnitude. -/
def Binary64.codeLimit : Nat := 2047 <<< 52

/-- A number of the format `binary64`. All NaNs are one. -/
inductive Binary64 where
  | nan
  | infinite (negative : Bool)
  | finite (negative : Bool) (code : Fin Binary64.codeLimit)
  deriving DecidableEq

namespace Binary64

/-- Zero under a sign. -/
def signedZero (negative : Bool) : Binary64 := .finite negative ⟨0, by decide⟩

/-- The magnitude of a code, as a numerator and a positive denominator. -/
def ratio (code : Nat) : Nat × Nat :=
  let e := code >>> 52
  let f := code % (1 <<< 52)
  if e = 0 then (f, 1 <<< 1074)
  else if e < 1075 then (1 <<< 52 + f, 1 <<< (1075 - e))
  else ((1 <<< 52 + f) <<< (e - 1075), 1)

/-- The quotient of two numbers, a half going to the even neighbour. -/
def divEven (num den : Nat) : Nat :=
  let q := num / den
  let r := num % den
  if 2 * r < den then q
  else if den < 2 * r then q + 1
  else if q % 2 = 0 then q else q + 1

/-- The code nearest to `num / den`, which may lie beyond the last one. The
    exponent is the least one whose fraction fits into 53 bits. -/
def nearestCode (num den : Nat) : Nat :=
  if num = 0 then 0
  else
    let guess : Int := (num.log2 : Int) - den.log2 - 53
    let scaled (q : Int) : Nat × Nat :=
      if 0 ≤ q then (num, den <<< q.toNat) else (num <<< (-q).toNat, den)
    let least : Int := max guess (-1074)
    let (n, d) := scaled least
    let q := if n / d < 1 <<< 53 then least else least + 1
    let (n, d) := scaled q
    (q + 1074).toNat <<< 52 + divEven n d

/-- The number nearest to `num / den` under a sign. -/
def ofRatio (negative : Bool) (num den : Nat) : Binary64 :=
  let code := nearestCode num den
  if h : code < codeLimit then .finite negative ⟨code, h⟩ else .infinite negative

/-- The number nearest to `digits * 10 ^ exponent` under a sign. Exponents far
    out of range are settled without computing the power. -/
def ofDecimal (negative : Bool) (digits : Nat) (exponent : Int) : Binary64 :=
  if digits = 0 then signedZero negative
  else
    let top : Int := digits.log2 + 1
    if 1100 < exponent then .infinite negative
    else if exponent < -1100 - top then signedZero negative
    else if 0 ≤ exponent then ofRatio negative (digits * Nat.pow 10 exponent.toNat) 1
    else ofRatio negative digits (Nat.pow 10 (-exponent).toNat)

/-- The number nearest to an integer. -/
def ofInt (n : Int) : Binary64 := ofRatio (n < 0) n.natAbs 1

def zero : Binary64 := signedZero false

/-- Is a number above zero? No NaN is. -/
def isPositive : Binary64 → Bool
  | .nan => false
  | .infinite negative => !negative
  | .finite negative code => !negative && code.val != 0

/-- Is a number zero or below? No NaN is. -/
def isAtMostZero : Binary64 → Bool
  | .nan => false
  | .infinite negative => negative
  | .finite negative code => negative || code.val == 0

/-- Numeric equality: a NaN differs from every number, and both zeros are equal. -/
def equals : Binary64 → Binary64 → Bool
  | .infinite a, .infinite b => a == b
  | .finite a m, .finite b n => m.val == n.val && (a == b || m.val == 0)
  | _, _ => false

/-- The quotient of two numbers, rounded once; `b` is a positive finite number. -/
def scaleDown (a b : Binary64) : Binary64 :=
  match a, b with
  | .finite s m, .finite _ n =>
    let (p, q) := ratio m
    let (u, v) := ratio n
    ofRatio s (p * v) (q * u)
  | a, _ => a

/-- The product of two numbers, rounded once; `b` is a positive finite number. -/
def scaleUp (a b : Binary64) : Binary64 :=
  match a, b with
  | .finite s m, .finite _ n =>
    let (p, q) := ratio m
    let (u, v) := ratio n
    ofRatio s (p * u) (q * v)
  | a, _ => a

/-- A number that is not zero or below is above zero or is a NaN. -/
theorem isAtMostZero_eq_false_iff {x : Binary64} :
    x.isAtMostZero = false ↔ x = .nan ∨ x.isPositive := by
  cases x with
  | nan => simp [isAtMostZero]
  | infinite s => cases s <;> simp [isAtMostZero, isPositive]
  | finite s c => cases s <;> simp [isAtMostZero, isPositive]

end VpnNode.Binary64
