import VpnNode.Text.Hex
import VpnNode.Text.Utf8

/-!
# Percent encoding

A value in the query of a URL keeps the letters and digits of ASCII and the
characters `*`, `-`, `.` and `_`; a space is written as `+` and every other
octet as `%` and two upper-case digits. A segment of a path is read back by
replacing each `%` that has two digits after it.
-/

namespace VpnNode.Form

/-- The octets that a query value keeps. -/
def isKept (b : UInt8) : Bool :=
  let c := Char.ofNat b.toNat
  c.isAlphanum || c == '*' || c == '-' || c == '.' || c == '_'

/-- One octet of a query value. -/
def encodeOctet (b : UInt8) : List Char :=
  if isKept b then [Char.ofNat b.toNat]
  else if b = 32 then ['+']
  else ['%', (Hex.digit (b.toNat / 16)).toUpper, (Hex.digit (b.toNat % 16)).toUpper]

/-- A query value. -/
def encode (s : String) : String := String.ofList ((Utf8.octets s).flatMap encodeOctet)

/-- The octets of a segment of a path. A `%` without two digits stands for
    itself. -/
def segmentOctets : List Char → List UInt8
  | [] => []
  | '%' :: h :: l :: r =>
    match Hex.digit? h, Hex.digit? l with
    | some high, some low => UInt8.ofNat (high * 16 + low) :: segmentOctets r
    | _, _ => 37 :: segmentOctets (h :: l :: r)
  | c :: r => Utf8.octets (String.ofList [c]) ++ segmentOctets r

/-- The text of a segment of a path, unless its octets are no UTF-8. -/
def decodeSegment? (segment : String) : Option String := Utf8.decode? (segmentOctets segment.toList)

end VpnNode.Form
