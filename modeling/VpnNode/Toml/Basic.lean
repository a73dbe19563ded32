import VpnNode.Number.Binary64

/-!
# TOML values

What a TOML text can hold. A table remembers how it has come about, because that decides
what later lines may add to it.
-/

namespace VpnNode.Toml

/-- How a table has come about. -/
inductive Origin where
  /-- It is written in braces; nothing can be added to it. -/
  | inline
  /-- It has a header of its own. -/
  | header
  /-- A longer header passes through it. -/
  | passing
  /-- A dotted key passes through it. -/
  | dotted
  deriving DecidableEq, Repr

/-- A value in a TOML text. -/
inductive Value where
  | text (s : String)
  | integer (n : Int)
  | real (x : Binary64)
  | flag (b : Bool)
  /-- A date, a time or both, as written. -/
  | moment (written : String)
  | array (items : List Value)
  | table (origin : Origin) (members : List (String × Value))
  /-- Tables under one header in double brackets. -/
  | tables (elements : List (List (String × Value)))

/-- The members of a table: keys, each with its value. -/
abbrev Members := List (String × Value)

/-- The value under a key. -/
def Members.lookup (ms : Members) (key : String) : Option Value :=
  (ms.find? fun m => m.1 == key).map Prod.snd

/-- The whole numbers that a text can hold: those of 64 bits with a sign. -/
def isWritable (n : Int) : Bool := Int64.minValue.toInt ≤ n && n ≤ Int64.maxValue.toInt

end VpnNode.Toml
