import VpnNode.Number.Shortest
import VpnNode.Text.Decimal
import VpnNode.Text.Hex
import VpnNode.Time.Date
import VpnNode.Toml.Basic

/-!
# TOML numbers, flags and moments

Each is one word. In numbers an underscore may stand between two digits. A whole number
may be written in another base without a sign and fits into 64 bits with a sign; a
fraction has digits on both sides of its point. A fraction above the range of numbers is
refused.

Main statement:

* `ungroup_of_all`: digits without underscores stand for themselves.
-/

namespace VpnNode.Toml

namespace Number

/-- The digits without their underscores, each of which stands between two digits. -/
def ungroup (isDigit : Char → Bool) : List Char → Option (List Char)
  | [] => none
  | [c] => if isDigit c then some [c] else none
  | c :: '_' :: r => if isDigit c then (ungroup isDigit r).map (c :: ·) else none
  | c :: r => if isDigit c then (ungroup isDigit r).map (c :: ·) else none

/-- A word without its sign: is it negative, and what is left? -/
def splitSign : List Char → Bool × List Char
  | '-' :: r => (true, r)
  | '+' :: r => (false, r)
  | r => (false, r)

/-- Digits that do not begin with a zero, unless that is all. -/
def decimalDigits? (cs : List Char) : Option (List Char) := do
  let digits ← ungroup Char.isDigit cs
  if digits.length = 1 ∨ digits.head? ≠ some '0' then some digits else none

/-- A whole number in a base. -/
def ofBase? (base : Nat) (cs : List Char) : Option Int := do
  let isDigit (c : Char) : Bool := (Hex.digit? c).any (· < base)
  let digits ← ungroup isDigit cs
  return (digits.foldl (fun n c => base * n + (Hex.digit? c).getD 0) 0 : Nat)

/-- A whole number. -/
def integer? (cs : List Char) : Option Int := do
  let n ← match cs with
    | '0' :: 'x' :: r => ofBase? 16 r
    | '0' :: 'o' :: r => ofBase? 8 r
    | '0' :: 'b' :: r => ofBase? 2 r
    | cs => do
      let (negative, r) := splitSign cs
      let n := Decimal.value (← decimalDigits? r)
      some (if negative then -(n : Int) else n)
  if isWritable n then some n else none

/-- Characters of a run of digits. -/
def isGrouped (c : Char) : Bool := c.isDigit || c == '_'

/-- The exponent after its mark. -/
def exponent? (cs : List Char) : Option Int := do
  let (negative, r) := splitSign cs
  let n := Decimal.value (← ungroup Char.isDigit r)
  return if negative then -(n : Int) else n

/-- What follows the digits before the point: the digits after it, and the exponent. -/
def tail? : List Char → Option (List Char × Int)
  | '.' :: r => do
    let digits ← ungroup Char.isDigit (r.takeWhile isGrouped)
    match r.dropWhile isGrouped with
    | [] => some (digits, 0)
    | c :: r => if c = 'e' ∨ c = 'E' then return (digits, ← exponent? r) else none
  | c :: r => if c = 'e' ∨ c = 'E' then return ([], ← exponent? r) else none
  | [] => none

/-- A fraction, or one of the names of what is no finite number. -/
def real? (cs : List Char) : Option Binary64 :=
  let (negative, r) := splitSign cs
  if r = ['i', 'n', 'f'] then some (.infinite negative)
  else if r = ['n', 'a', 'n'] then some .nan
  else do
    let whole ← decimalDigits? (r.takeWhile isGrouped)
    let (fraction, exponent) ← tail? (r.dropWhile isGrouped)
    match Binary64.ofDecimal negative (Decimal.value (whole ++ fraction))
      (exponent - fraction.length) with
    | .infinite false => none
    | x => some x

/-- The text of a fraction: its shortest decimal, never with an exponent. -/
def writeReal : Binary64 → List Char
  | .nan => ['n', 'a', 'n']
  | .infinite false => ['i', 'n', 'f']
  | .infinite true => ['-', 'i', 'n', 'f']
  | .finite false code => (Shortest.ofCode code).positional
  | .finite true code => '-' :: (Shortest.ofCode code).positional

/-- Digits without underscores stand for themselves. -/
theorem ungroup_of_all {isDigit : Char → Bool} {cs : List Char} (h : cs ≠ [])
    (hd : cs.all isDigit) (hu : isDigit '_' = false) : ungroup isDigit cs = some cs := by
  induction cs with
  | nil => exact absurd rfl h
  | cons c r ih =>
    simp only [List.all_cons, Bool.and_eq_true] at hd
    cases r with
    | nil => simp [ungroup, hd.1]
    | cons d r =>
      have hne : d ≠ '_' := by
        rintro rfl
        simp only [List.all_cons, Bool.and_eq_true] at hd
        rw [hu] at hd; exact absurd hd.2.1 (by decide)
      rw [ungroup]
      · simp [hd.1, ih (by simp) hd.2]
      · intro h; cases h
      · intro r' h; exact hne (by injection h)

end Number

namespace Moment

/-- The number that two digits spell. -/
def pair? (a b : Char) : Option Nat :=
  if a.isDigit ∧ b.isDigit then some (Decimal.value [a, b]) else none

/-- Is a word a day of the calendar? -/
def isDate : List Char → Bool
  | [y1, y2, y3, y4, '-', m1, m2, '-', d1, d2] =>
    match pair? y1 y2, pair? y3 y4, pair? m1 m2, pair? d1 d2 with
    | some y, some y', some m, some d =>
      1 ≤ m && m ≤ 12 && 1 ≤ d && d ≤ daysInMonth ((100 * y + y' : Nat) : Int) m
    | _, _, _, _ => false
  | _ => false

/-- What follows the seconds: an optional fraction. Gives what is left. -/
def dropFraction : List Char → Option (List Char)
  | '.' :: r => if (r.head?.any Char.isDigit) then some (r.dropWhile Char.isDigit) else none
  | r => some r

/-- Reads a time of day; gives what is left. -/
def dropTime : List Char → Option (List Char)
  | h1 :: h2 :: ':' :: m1 :: m2 :: ':' :: s1 :: s2 :: r =>
    match pair? h1 h2, pair? m1 m2, pair? s1 s2 with
    | some h, some m, some s => if h < 24 ∧ m < 60 ∧ s ≤ 60 then dropFraction r else none
    | _, _, _ => none
  | _ => none

/-- Is a word the distance of a clock from universal time? -/
def isOffset : List Char → Bool
  | [c] => c == 'Z' || c == 'z'
  | [sign, h1, h2, ':', m1, m2] =>
    (sign == '+' || sign == '-') && (pair? h1 h2).any (· < 24) && (pair? m1 m2).any (· < 60)
  | _ => false

/-- Is a word a time of day? -/
def isTime (cs : List Char) : Bool := (dropTime cs).any List.isEmpty

/-- Is a word a time of day, with or without an offset? -/
def isOffsetTime (cs : List Char) : Bool :=
  (dropTime cs).any fun rest => rest.isEmpty || isOffset rest

/-- Is a word a date, a time or both? -/
def isMoment (cs : List Char) : Bool :=
  isTime cs || isDate cs ||
    match cs.drop 10 with
    | c :: r => isDate (cs.take 10) && (c == 'T' || c == 't') && isOffsetTime r
    | [] => false

end Moment

/-! ## Words -/

/-- Characters of words that are no strings. -/
def isWordChar (c : Char) : Bool :=
  c.isAlphanum || c == '+' || c == '-' || c == '_' || c == '.' || c == ':'

/-- The value of a word. -/
def Value.ofWord? (cs : List Char) : Option Value :=
  if cs = ['t', 'r', 'u', 'e'] then some (.flag true)
  else if cs = ['f', 'a', 'l', 's', 'e'] then some (.flag false)
  else if Moment.isMoment cs then some (.moment (String.ofList cs))
  else
    match Number.integer? cs with
    | some n => some (.integer n)
    | none => (Number.real? cs).map .real

/-- Reads a word. A time of day may stand after its date as a word of its own. -/
def readWord (cs : List Char) : Option (Value × List Char) :=
  let word := cs.takeWhile isWordChar
  let rest := cs.dropWhile isWordChar
  let alone := (Value.ofWord? word).map fun v => (v, rest)
  match rest with
  | ' ' :: d :: r =>
    if Moment.isDate word ∧ d.isDigit then
      let time := (d :: r).takeWhile isWordChar
      if Moment.isOffsetTime time then
        some (.moment (String.ofList (word ++ ' ' :: time)), (d :: r).dropWhile isWordChar)
      else none
    else alone
  | _ => alone

end VpnNode.Toml
