import VpnNode.Time.Basic
import VpnNode.Text.Blank
import VpnNode.Text.Decimal

/-!
# The text of a point in time

A point in time is written as a date, `T`, a time of day and `Z`. Its fraction has
0, 3, 6 or 9 digits, the fewest that hold it. A year outside 0 to 9999 has a sign.

Reading is more liberal: blanks may stand before each number, before each separator
and before the offset; numbers may be shorter; `T` may be a small letter or a blank;
the fraction may have any number of digits, of which nine count; and in place of `Z`
there may be `UTC` or an offset of hours and minutes, which is taken off.
-/

namespace VpnNode.Time

/-! ## Writing -/

/-- The last `w` digits of a number. -/
def padded (w n : Nat) : List Char :=
  match w with
  | 0 => []
  | w + 1 => padded w (n / 10) ++ [Char.ofNat (48 + n % 10)]

/-- The text of a year. -/
def yearChars (y : Int) : List Char :=
  if 0 ≤ y ∧ y ≤ 9999 then padded 4 y.toNat
  else
    let digits := Nat.toDigits 10 y.natAbs
    (if y < 0 then '-' else '+') :: List.replicate (4 - digits.length) '0' ++ digits

/-- The text of a fraction of a second. -/
def fractionChars (nanos : Nat) : List Char :=
  if nanos = 0 then []
  else if nanos % 1000000 = 0 then '.' :: padded 3 (nanos / 1000000)
  else if nanos % 1000 = 0 then '.' :: padded 6 (nanos / 1000)
  else '.' :: padded 9 nanos

/-- The text of a point in time. -/
def chars (t : Time) : List Char :=
  let s := t.second.val
  let leap := if t.isLeap then 1 else 0
  yearChars t.date.year ++ '-' :: padded 2 t.date.month ++ '-' :: padded 2 t.date.day ++
    'T' :: padded 2 (s / 3600) ++ ':' :: padded 2 (s / 60 % 60) ++ ':' :: padded 2 (s % 60 + leap) ++
    fractionChars (t.nanos.val % 1000000000) ++ ['Z']

/-- The text of a point in time. -/
def render (t : Time) : String := String.ofList t.chars

/-! ## Reading -/

/-- A reader of a piece of text: a value and the rest. -/
abbrev Scan (α : Type) := List Char → Option (α × List Char)

def skipBlanks (cs : List Char) : List Char := cs.dropWhile Text.isBlank

/-- One to `most` digits. -/
def scanDigits (most : Nat) : Scan Nat := fun cs =>
  let digits := (cs.take most).takeWhile Char.isDigit
  if digits.isEmpty then none else some (Decimal.value digits, cs.drop digits.length)

/-- A number of one or two digits after blanks. -/
def scanPart : Scan Nat := fun cs => scanDigits 2 (skipBlanks cs)

/-- A year after blanks: up to four digits, or any number of them after a sign. -/
def scanYear : Scan Int := fun cs =>
  match skipBlanks cs with
  | '-' :: r => (scanDigits r.length r).map fun (n, r) => (-(n : Int), r)
  | '+' :: r => (scanDigits r.length r).map fun (n, r) => ((n : Int), r)
  | r => (scanDigits 4 r).map fun (n, r) => ((n : Int), r)

/-- A separator after blanks. -/
def scanSeparator (c : Char) : Scan Unit := fun cs =>
  match skipBlanks cs with
  | d :: r => if d = c then some ((), r) else none
  | [] => none

/-- A fraction of a second, in nanoseconds, if there is one. -/
def scanFraction : Scan Nat
  | '.' :: r =>
    let digits := r.takeWhile Char.isDigit
    if digits.isEmpty then none
    else
      let nine := digits.take 9
      some (Decimal.value nine * Nat.pow 10 (9 - nine.length), r.dropWhile Char.isDigit)
  | r => some (0, r)

/-- An offset from universal time, in seconds. -/
def scanOffset : Scan Int := fun cs =>
  match cs with
  | 'Z' :: r | 'z' :: r => some (0, r)
  | sign :: h :: k :: r =>
    if (sign = '+' ∨ sign = '-' ∨ sign = '−') ∧ h.isDigit ∧ k.isDigit then
      match r.dropWhile (fun c => c == ':' || Text.isBlank c) with
      | m :: n :: r =>
        if m.isDigit ∧ n.isDigit ∧ m < '6' then
          let offset : Int := Decimal.value [h, k] * 3600 + Decimal.value [m, n] * 60
          some (if sign = '+' then offset else -offset, r)
        else none
      | _ => none
    else none
  | _ => none

/-- What stands for the offset: `UTC` in any case, or an offset. -/
def scanZone : Scan Int := fun cs =>
  if (cs.take 3).map Char.toLower = ['u', 't', 'c'] then some (0, cs.drop 3) else scanOffset cs

/-- Moves a point by an offset of less than a day. -/
def shift? (date : Date) (second : Int) (nanos : Nat) (offset : Int) : Option Time := do
  if offset ≤ -86400 ∨ 86400 ≤ offset then none
  let s := second - offset
  let date ← if s < 0 then date.previous? else if 86400 ≤ s then date.next? else some date
  let s := (s % 86400).toNat
  if h : s < 86400 ∧ nanos < 2000000000 then some ⟨date, ⟨s, h.1⟩, ⟨nanos, h.2⟩⟩ else none

/-- Reads a point in time. -/
def ofChars? (cs : List Char) : Option Time := do
  let (year, cs) ← scanYear cs
  let (_, cs) ← scanSeparator '-' cs
  let (month, cs) ← scanPart cs
  let (_, cs) ← scanSeparator '-' cs
  let (day, cs) ← scanPart cs
  let cs ← match cs with
    | 'T' :: r | 't' :: r | ' ' :: r => some r
    | _ => none
  let (hour, cs) ← scanPart cs
  let (_, cs) ← scanSeparator ':' cs
  let (minute, cs) ← scanPart cs
  let (_, cs) ← scanSeparator ':' cs
  let (second, cs) ← scanPart cs
  let (nanos, cs) ← scanFraction cs
  let (offset, cs) ← scanZone (skipBlanks cs)
  if !(skipBlanks cs).isEmpty ∨ 24 ≤ hour ∨ 60 ≤ minute ∨ 61 ≤ second then none
  let date ← Date.ofParts? year month day
  let leap := second = 60
  shift? date (hour * 3600 + minute * 60 + (if leap then 59 else second))
    (if leap then nanos + 1000000000 else nanos) offset

/-- Reads a point in time. -/
def parse? (s : String) : Option Time := ofChars? s.toList

end VpnNode.Time
