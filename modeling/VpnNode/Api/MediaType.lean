/-!
# Media types

A media type has a type, a subtype, and perhaps a suffix after the last plus sign of the
subtype. Parameters follow after semicolons: a name, an equals sign, and a token or a
quoted text. A text is read as a whole or not at all; names are compared in lower case.
-/

namespace VpnNode.Api

/-- A media type without its parameters, in lower case. -/
structure MediaType where
  type : List Char
  subtype : List Char
  suffix : Option (List Char)
  deriving DecidableEq

namespace MediaType

/-- The characters of names. -/
def isTokenChar (c : Char) : Bool := c.isAlphanum || "!#$%&'*+-.^_`|~".toList.contains c

/-- The characters inside quotes. -/
def isQuotedChar (c : Char) : Bool := 32 ≤ c.toNat && c.toNat ≠ 127

mutual

/-- Reads the start of a parameter, whose name has `n` characters so far. -/
def paramName (n : Nat) : List Char → Bool
  | [] => n == 0
  | c :: r =>
    if c = ' ' ∧ n = 0 then paramName 0 r
    else if c = '=' ∧ 0 < n then paramValue 0 r
    else isTokenChar c && paramName (n + 1) r

/-- Reads the value of a parameter, which has `n` characters so far. -/
def paramValue (n : Nat) : List Char → Bool
  | [] => true
  | c :: r =>
    if c = '"' ∧ n = 0 then quotedValue 0 r
    else if c = ';' ∧ 0 < n then paramName 0 r
    else isTokenChar c && paramValue (n + 1) r

/-- Reads a value in quotes, which has `n` characters so far. -/
def quotedValue (n : Nat) : List Char → Bool
  | [] => false
  | c :: r =>
    if c = '"' ∧ 0 < n then afterQuoted r
    else isQuotedChar c && quotedValue (n + 1) r

/-- Reads what follows a value in quotes. -/
def afterQuoted : List Char → Bool
  | [] => true
  | c :: r => if c = ';' then paramName 0 r else c == ' ' && afterQuoted r

end

/-- Parts a subtype at its last plus sign, unless that is its first character. -/
def splitSuffix (cs : List Char) : List Char × Option (List Char) :=
  let after := (cs.reverse.takeWhile (· ≠ '+')).reverse
  let before := cs.take (cs.length - after.length - 1)
  if before.isEmpty then (cs, none) else (before, some after)

/-- Reads a media type. -/
def parse? (s : String) : Option MediaType :=
  let cs := s.toList.map Char.toLower
  let type := cs.takeWhile isTokenChar
  match cs.dropWhile isTokenChar with
  | '/' :: r =>
    let whole := r.takeWhile isTokenChar
    let (subtype, suffix) := splitSuffix whole
    let sound := match r.dropWhile isTokenChar with
      | [] => true
      | ';' :: params => !whole.isEmpty && paramName 0 params
      | _ => false
    if type.isEmpty ∨ !sound then none else some ⟨type, subtype, suffix⟩
  | _ => none

/-- Does a media type stand for JSON? -/
def isJson (m : MediaType) : Bool :=
  m.type == "application".toList &&
    (m.subtype == "json".toList || m.suffix == some "json".toList)

end VpnNode.Api.MediaType
