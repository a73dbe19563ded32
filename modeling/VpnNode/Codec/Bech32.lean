import VpnNode.Codec.Bits
import VpnNode.Text.Blank
import VpnNode.Text.Utf8

/-!
# Bech32

A text is a readable part, the separator `1`, and symbols of five bits of which
the last six are a checksum over all that stands before them. The separator is
the last `1` of the text, so the readable part may hold that character too.
There is no limit on the whole length. Two checksum constants are accepted;
the first one is written.

Main statement:

* `symbolOf?_symbol`: a symbol is read back from its character.
-/

namespace VpnNode.Bech32

/-! ## Faults -/

inductive Fault where
  | missingSeparator
  | invalidLength
  | invalidChar (c : Char)
  | mixedCase
  | invalidChecksum
  | invalidPadding
  deriving DecidableEq, Repr

def Fault.message : Fault → String
  | .missingSeparator => "missing human-readable separator, \"1\""
  | .invalidLength => "invalid length"
  | .invalidChar c => s!"invalid character (code={c})"
  | .mixedCase => "mixed-case strings not allowed"
  | .invalidChecksum => "invalid checksum"
  | .invalidPadding => "invalid padding"

/-! ## Symbols -/

def alphabet : List Char := "qpzry9x8gf2tvdw0s3jn54khce6mua7l".toList

/-- The character of a symbol below 32. -/
def symbol (n : Nat) : Char := alphabet.getD n 'q'

/-- The symbol of a lower-case character. -/
def symbolOf? (c : Char) : Option Nat := alphabet.findIdx? (· == c)

theorem symbolOf?_symbol : ∀ n < 32, symbolOf? (symbol n) = some n := by decide

/-! ## The readable part -/

/-- The case of the letters seen so far. -/
inductive LetterCase where
  | none
  | lower
  | upper
  deriving DecidableEq, Repr

/-- The case after one more character, unless it is a letter of the other case. -/
def LetterCase.next? (seen : LetterCase) (c : Char) : Option LetterCase :=
  if c.isLower then if seen = .upper then Option.none else some .lower
  else if c.isUpper then if seen = .lower then Option.none else some .upper
  else some seen

/-- Checks the octets of a readable part from left to right. -/
def scanReadable (seen : LetterCase) : List UInt8 → Except Fault LetterCase
  | [] => .ok seen
  | b :: r =>
    let c := Char.ofNat b.toNat
    if b < 33 ∨ 126 < b then .error (.invalidChar c)
    else match seen.next? c with
      | none => .error .mixedCase
      | some seen => scanReadable seen r

/-- The case of a readable part: 1 to 83 octets, each a visible ASCII character,
    with letters of one case only. -/
def readableCase (part : String) : Except Fault LetterCase :=
  let bs := Utf8.octets part
  if bs.isEmpty ∨ 83 < bs.length then .error .invalidLength
  else scanReadable .none bs

/-! ## The checksum -/

/-- Reduces the five bits that leave a residue. -/
def reduction (top : Nat) : Nat :=
  let pick (i g : Nat) := if top.testBit i then g else 0
  pick 0 0x3b6a57b2 ^^^ pick 1 0x26508e6d ^^^ pick 2 0x1ea119fa ^^^ pick 3 0x3d4233dd ^^^
    pick 4 0x2a1462b3

/-- Appends a symbol to a residue of thirty bits. -/
def residueStep (c v : Nat) : Nat :=
  (c % 0x2000000) * 32 ^^^ v ^^^ reduction (c >>> 25)

/-- The residue of symbols. -/
def residue (vs : List Nat) : Nat := vs.foldl residueStep 1

/-- The symbols that stand for a readable part under the checksum. -/
def expand (part : List Char) : List Nat :=
  part.map (fun c => c.toNat / 32) ++ 0 :: part.map (fun c => c.toNat % 32)

/-- The residue of a sound text. -/
def target : Nat := 1

/-- The residue of a sound text of the other variant. -/
def modifiedTarget : Nat := 0x2bc830a3

/-- The six symbols that complete a text. -/
def checksum (part : List Char) (data : List Nat) : List Nat :=
  let c := residue (expand part ++ data ++ List.replicate 6 0) ^^^ target
  [25, 20, 15, 10, 5, 0].map fun place => (c >>> place) % 32

/-! ## Octets and symbols -/

/-- Regroups octets into symbols; the last symbol is filled up with zeros. -/
def toSymbols (bs : List UInt8) : List Nat :=
  let bits := bs.flatMap fun b => Bits.toBits 8 b.toNat
  (Bits.chunks 4 bits).map fun g => Bits.ofBits (g ++ List.replicate (5 - g.length) false)

/-- Regroups symbols into octets. What is left over must be fewer than five
    bits, all zero. -/
def ofSymbols? (vs : List Nat) : Option (List UInt8) :=
  let bits := vs.flatMap fun v => Bits.toBits 5 v
  let whole := bits.length / 8 * 8
  let rest := bits.drop whole
  if rest.length < 5 ∧ rest.all (· == false) then
    some ((Bits.chunks 7 (bits.take whole)).map fun g => UInt8.ofNat (Bits.ofBits g))
  else none

/-! ## Encoding and decoding -/

/-- The lower-case form of a readable part, if it is one. -/
def readable (part : String) : Except Fault String := do
  let _ ← readableCase part
  return Text.asciiLower part

/-- Writes octets under a readable part. -/
def encode (part : String) (payload : List UInt8) : Except Fault String := do
  let part ← readable part
  let data := toSymbols payload
  let symbols := data ++ checksum part.toList data
  return part ++ "1" ++ String.ofList (symbols.map symbol)

/-- Reads symbols from left to right, given the case of the letters so far. -/
def scanSymbols (seen : LetterCase) : List Char → Except Fault (List Nat)
  | [] => .ok []
  | c :: r =>
    if 127 < c.toNat then .error (.invalidChar c)
    else match seen.next? c with
      | none => .error .mixedCase
      | some seen =>
        match symbolOf? c.toLower with
        | none => .error (.invalidChar c)
        | some v => do return v :: (← scanSymbols seen r)

/-- The characters before and after the last `1`. -/
def splitLast (cs : List Char) : Option (List Char × List Char) :=
  let after := (cs.reverse.takeWhile (· ≠ '1')).reverse
  let before := cs.take (cs.length - after.length)
  if before.isEmpty then none else some (before.dropLast, after)

/-- Reads a text: its readable part in lower case and the octets. -/
def decode (text : String) : Except Fault (String × List UInt8) := do
  let (part, data) ← (splitLast text.toList).elim (.error .missingSeparator) .ok
  let part := String.ofList part
  let seen ← readableCase part
  let symbols ← scanSymbols seen data
  if symbols.length < 6 then throw .invalidLength
  let lower := Text.asciiLower part
  let r := residue (expand lower.toList ++ symbols)
  if r ≠ target ∧ r ≠ modifiedTarget then throw .invalidChecksum
  match ofSymbols? (symbols.take (symbols.length - 6)) with
  | none => throw .invalidPadding
  | some payload => return (lower, payload)

end VpnNode.Bech32
