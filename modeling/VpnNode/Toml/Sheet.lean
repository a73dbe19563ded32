import VpnNode.Text.Decimal
import VpnNode.Toml.Quoted
import VpnNode.Toml.Scalar

/-!
# Writing TOML sheets

A sheet is a list of sections, each with lines of plain values. A section is a header and
a line for each key; an empty line stands between two sections. A list with several items
has a line for each of them.
-/

namespace VpnNode.Toml

/-- What a line of a sheet holds. -/
inductive Entry where
  | text (s : String)
  | integer (n : Nat)
  | real (x : Binary64)
  | flag (b : Bool)
  | texts (items : List String)
  deriving DecidableEq

namespace Entry

/-- Can the value be written? -/
def isWritable : Entry → Bool
  | .integer n => Toml.isWritable n
  | _ => true

/-- The value as it is read. -/
def toValue : Entry → Value
  | .text s => .text s
  | .integer n => .integer n
  | .real x => .real x
  | .flag b => .flag b
  | .texts items => .array (items.map .text)

/-- The text of a value. -/
def write : Entry → List Char
  | .text s => Quoted.write s.toList
  | .integer n => (Decimal.render n).toList
  | .real x => Number.writeReal x
  | .flag true => ['t', 'r', 'u', 'e']
  | .flag false => ['f', 'a', 'l', 's', 'e']
  | .texts [] => ['[', ']']
  | .texts [s] => '[' :: Quoted.write s.toList ++ [']']
  | .texts items =>
    '[' :: '\n' :: items.flatMap (fun s => [' ', ' ', ' ', ' '] ++ Quoted.write s.toList ++ [',', '\n'])
      ++ [']']

end Entry

/-- Sections, each with a name and lines of keys and values. -/
abbrev Sheet := List (String × List (String × Entry))

namespace Sheet

/-- Can all values be written? -/
def isWritable (sheet : Sheet) : Bool := sheet.all fun s => s.2.all fun e => e.2.isWritable

/-- A section: its header and its lines. -/
def writeSection (name : String) (lines : List (String × Entry)) : List Char :=
  '[' :: name.toList ++ [']', '\n'] ++
    lines.flatMap fun (key, e) => key.toList ++ [' ', '=', ' '] ++ e.write ++ ['\n']

/-- The text of a sheet. -/
def write (sheet : Sheet) : List Char :=
  List.intercalate ['\n'] (sheet.map fun (name, lines) => writeSection name lines)

end Sheet

end VpnNode.Toml
