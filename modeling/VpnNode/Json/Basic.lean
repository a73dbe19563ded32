import VpnNode.Number.Shortest
import VpnNode.Text.Decimal
import VpnNode.Text.Hex

/-!
# JSON values and their compact text

A value is written without white space, members in the order in which they are
held. A string is quoted with the two-character escapes where JSON has one and
`\u` escapes for the other control characters. A whole number is its numeral, a
binary fraction its shortest decimal, and a fraction that is not finite is
`null`.
-/

namespace VpnNode

/-- The numbers of a JSON text: whole numbers as they stand, all others as binary
    fractions. -/
inductive Json.Number where
  | integer (n : Int)
  | real (x : Binary64)
  deriving DecidableEq

/-- A JSON value. Members keep their order. -/
inductive Json where
  | null
  | bool (b : Bool)
  | number (n : Json.Number)
  | string (s : String)
  | array (items : List Json)
  | object (members : List (String × Json))

namespace Json

def ofInt (n : Int) : Json := .number (.integer n)

def ofNat (n : Nat) : Json := .number (.integer n)

/-- A value, or `null` where there is none. -/
def ofOption (f : α → Json) : Option α → Json
  | some a => f a
  | none => .null

/-! ## Writing -/

/-- The text of a binary fraction. -/
def realChars : Binary64 → List Char
  | .finite negative code =>
    let cs := (Shortest.ofCode code.val).compact
    if negative then '-' :: cs else cs
  | _ => "null".toList

/-- The text of a number. -/
def Number.chars : Number → List Char
  | .integer n => (Decimal.renderInt n).toList
  | .real x => realChars x

/-- One character inside quotes. -/
def escapeChar (c : Char) : List Char :=
  match c with
  | '"' => ['\\', '"']
  | '\\' => ['\\', '\\']
  | '\x08' => ['\\', 'b']
  | '\x0c' => ['\\', 'f']
  | '\n' => ['\\', 'n']
  | '\r' => ['\\', 'r']
  | '\t' => ['\\', 't']
  | c =>
    if c.toNat < 0x20 then
      ['\\', 'u', '0', '0', Hex.digit (c.toNat / 16), Hex.digit (c.toNat % 16)]
    else [c]

/-- A string with its quotes. -/
def quote (s : String) : List Char := '"' :: s.toList.flatMap escapeChar ++ ['"']

mutual

/-- The text of a value. -/
def chars : Json → List Char
  | .null => "null".toList
  | .bool true => "true".toList
  | .bool false => "false".toList
  | .number n => n.chars
  | .string s => quote s
  | .array [] => ['[', ']']
  | .array (v :: vs) => '[' :: v.chars ++ itemChars vs
  | .object [] => ['\x7b', '\x7d']
  | .object ((k, v) :: ms) => '\x7b' :: quote k ++ ':' :: v.chars ++ memberChars ms

/-- The items after the first one, and the closing bracket. -/
def itemChars : List Json → List Char
  | [] => [']']
  | v :: vs => ',' :: v.chars ++ itemChars vs

/-- The members after the first one, and the closing brace. -/
def memberChars : List (String × Json) → List Char
  | [] => ['\x7d']
  | (k, v) :: ms => ',' :: quote k ++ ':' :: v.chars ++ memberChars ms

end

/-- The compact text of a value. -/
def render (v : Json) : String := String.ofList v.chars

end VpnNode.Json
