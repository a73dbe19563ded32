/-!
# UTF-8

Octets and the texts they spell. A run of octets that is no UTF-8 is either
refused or read with U+FFFD in place of each longest broken start of a
character.
-/

namespace VpnNode.Utf8

/-- The octets that spell a text. -/
def octets (s : String) : List UInt8 := s.toUTF8.data.toList

/-- What stands at the front of a run of octets: a character, or a broken start
    of one, each with the number of octets it takes. -/
inductive Front where
  | char (c : Char) (rest : Nat)
  | broken (rest : Nat)
  deriving DecidableEq, Repr

/-- The character in front, unless it is broken. -/
def Front.char? : Front → Option Char
  | .char c _ => some c
  | .broken _ => none

/-- The number of octets in front, the leading one included. -/
def Front.length : Front → Nat
  | .char _ rest => rest + 1
  | .broken rest => rest + 1

/-- Reads the continuation octets of a character. The value so far is `acc`,
    `need` octets are still to come, `taken` have been read, and the next one
    lies between `lo` and `hi`. -/
def continuation (acc need taken lo hi : Nat) : List UInt8 → Front
  | [] => if need = 0 then .char (Char.ofNat acc) taken else .broken taken
  | b :: r =>
    match need with
    | 0 => .char (Char.ofNat acc) taken
    | need + 1 =>
      if lo ≤ b.toNat ∧ b.toNat ≤ hi then
        continuation (acc * 64 + b.toNat % 64) need (taken + 1) 0x80 0xBF r
      else .broken taken

/-- Classifies the octets after a leading octet. Overlong spellings, surrogates
    and values above U+10FFFF are cut off by the range of the second octet. -/
def front (lead : UInt8) (rest : List UInt8) : Front :=
  let b := lead.toNat
  if b < 0x80 then .char (Char.ofNat b) 0
  else if 0xC2 ≤ b ∧ b ≤ 0xDF then continuation (b % 32) 1 0 0x80 0xBF rest
  else if b = 0xE0 then continuation (b % 16) 2 0 0xA0 0xBF rest
  else if b = 0xED then continuation (b % 16) 2 0 0x80 0x9F rest
  else if 0xE1 ≤ b ∧ b ≤ 0xEF then continuation (b % 16) 2 0 0x80 0xBF rest
  else if b = 0xF0 then continuation (b % 8) 3 0 0x90 0xBF rest
  else if 0xF1 ≤ b ∧ b ≤ 0xF3 then continuation (b % 8) 3 0 0x80 0xBF rest
  else if b = 0xF4 then continuation (b % 8) 3 0 0x80 0x8F rest
  else .broken 0

/-- Splits octets into the fronts they consist of. -/
def fronts : List UInt8 → List Front
  | [] => []
  | b :: r =>
    let f := front b r
    f :: fronts (r.drop (f.length - 1))
termination_by bs => bs.length
decreasing_by simp only [List.length_drop, List.length_cons]; omega

/-- The text that octets spell, if they are UTF-8. -/
def decode? (bs : List UInt8) : Option String :=
  ((fronts bs).mapM Front.char?).map String.ofList

/-- The text that octets spell, with U+FFFD for what is no UTF-8. -/
def decodeLossy (bs : List UInt8) : String :=
  String.ofList ((fronts bs).map fun f => f.char?.getD (Char.ofNat 0xFFFD))

end VpnNode.Utf8
