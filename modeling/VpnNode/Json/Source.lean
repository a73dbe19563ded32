import VpnNode.Json.Number

/-!
# JSON texts

The structure of a JSON text, as far as it can be read. Where the text breaks the
grammar, the structure breaks off: a `broken` node stands at the place, and the
arrays and objects around it are left open. A consumer that walks the structure in
order thus meets a flaw of the text exactly where it stands, and can tell a text
that breaks off from one of another shape than it wants.

Strings with a lone surrogate and numbers out of range have a sound grammar but no
value.
-/

namespace VpnNode.Json

/-- The structure of a text. -/
inductive Source where
  | broken
  | null
  | bool (b : Bool)
  | number (n : Option Number)
  | string (s : Option String)
  | array (items : List Source) (closed : Bool)
  | object (members : List (Option String × Source)) (closed : Bool)
  deriving Inhabited

namespace Source

/-! ## Strings -/

/-- The number that four hexadecimal digits spell, and the rest. -/
def hexUnit? : List Char → Option (Nat × List Char)
  | a :: b :: c :: d :: r => do
    let a ← Hex.digit? a
    let b ← Hex.digit? b
    let c ← Hex.digit? c
    let d ← Hex.digit? d
    return (((a * 16 + b) * 16 + c) * 16 + d, r)
  | _ => none

/-- The character of a two-character escape. -/
def plainEscape? : Char → Option Char
  | '"' => some '"'
  | '\\' => some '\\'
  | '/' => some '/'
  | 'b' => some '\x08'
  | 'f' => some '\x0c'
  | 'n' => some '\n'
  | 'r' => some '\r'
  | 't' => some '\t'
  | _ => none

/-- One element of a string: its end, a character with the rest, a lone surrogate
    with the rest, or a breach of the grammar. -/
inductive Piece where
  | close (rest : List Char)
  | char (c : Char) (rest : List Char)
  | lone (rest : List Char)
  | broken

/-- The piece of a `\u` escape, after the `u`. -/
def unitPiece (cs : List Char) : Piece :=
  match hexUnit? cs with
  | none => .broken
  | some (n, r) =>
    if 0xDC00 ≤ n ∧ n ≤ 0xDFFF then .lone r
    else if 0xD800 ≤ n ∧ n ≤ 0xDBFF then
      match r with
      | '\\' :: 'u' :: r2 =>
        match hexUnit? r2 with
        | some (m, r3) =>
          if 0xDC00 ≤ m ∧ m ≤ 0xDFFF then
            .char (Char.ofNat (0x10000 + (n - 0xD800) * 0x400 + (m - 0xDC00))) r3
          else .lone r
        | none => .lone r
      | _ => .lone r
    else .char (Char.ofNat n) r

/-- The first piece of the inside of a string. -/
def piece : List Char → Piece
  | [] => .broken
  | '"' :: r => .close r
  | '\\' :: 'u' :: r => unitPiece r
  | '\\' :: c :: r =>
    match plainEscape? c with
    | some d => .char d r
    | none => .broken
  | c :: r => if c.toNat < 0x20 ∨ c = '\\' then .broken else .char c r

/-- The inside of a string up to the closing quote: its text, unless a surrogate
    stands alone, and the rest. Every piece takes a character, so the length of the
    text bounds the number of pieces. -/
def stringBody : Nat → List Char → Option (Option (List Char) × List Char)
  | 0, _ => none
  | fuel + 1, cs =>
    match piece cs with
    | .broken => none
    | .close r => some (some [], r)
    | .char c r => (stringBody fuel r).map fun (s, r) => (s.map (c :: ·), r)
    | .lone r => (stringBody fuel r).map fun (_, r) => (none, r)

/-- A string whose opening quote has been read. -/
def readString (cs : List Char) : Option (Option String × List Char) :=
  (stringBody (cs.length + 1) cs).map fun (s, r) => (s.map String.ofList, r)

/-! ## Values -/

/-- The white space of JSON. -/
def isSpace (c : Char) : Bool := c == ' ' || c == '\t' || c == '\n' || c == '\r'

def skipSpace (cs : List Char) : List Char := cs.dropWhile isSpace

/-- Reads a word that must stand next. -/
def word (w : List Char) (v : Source) (cs : List Char) : Source × Option (List Char) :=
  if w.isPrefixOf cs then (v, some (cs.drop w.length)) else (.broken, none)

/-- A number whose sign has been read. -/
def readNumber (negative : Bool) (cs : List Char) : Source × Option (List Char) :=
  match readUnsigned negative cs with
  | some (n, r) => (.number n, some r)
  | none => (.broken, none)

mutual

/-- Reads a value; the rest is missing where the text breaks off. -/
def value : Nat → List Char → Source × Option (List Char)
  | 0, _ => (.broken, none)
  | fuel + 1, cs =>
    match skipSpace cs with
    | 'n' :: r => word "ull".toList .null r
    | 't' :: r => word "rue".toList (.bool true) r
    | 'f' :: r => word "alse".toList (.bool false) r
    | '"' :: r =>
      match readString r with
      | some (s, r) => (.string s, some r)
      | none => (.broken, none)
    | '[' :: r =>
      match skipSpace r with
      | ']' :: r => (.array [] true, some r)
      | r =>
        let (items, rest) := items fuel r
        (.array items rest.isSome, rest)
    | '\x7b' :: r =>
      match skipSpace r with
      | '\x7d' :: r => (.object [] true, some r)
      | r =>
        let (members, rest) := members fuel r
        (.object members rest.isSome, rest)
    | '-' :: r => readNumber true r
    | c :: r => if c.isDigit then readNumber false (c :: r) else (.broken, none)
    | [] => (.broken, none)

/-- Reads items and the closing bracket. -/
def items : Nat → List Char → List Source × Option (List Char)
  | 0, _ => ([], none)
  | fuel + 1, cs =>
    match value fuel cs with
    | (v, none) => ([v], none)
    | (v, some r) =>
      match skipSpace r with
      | ',' :: r =>
        let (vs, rest) := items fuel r
        (v :: vs, rest)
      | ']' :: r => ([v], some r)
      | _ => ([v], none)

/-- Reads members and the closing brace. -/
def members : Nat → List Char → List (Option String × Source) × Option (List Char)
  | 0, _ => ([], none)
  | fuel + 1, cs =>
    match skipSpace cs with
    | '"' :: r =>
      match readString r with
      | none => ([], none)
      | some (k, r) =>
        match skipSpace r with
        | ':' :: r =>
          match value fuel r with
          | (v, none) => ([(k, v)], none)
          | (v, some r) =>
            match skipSpace r with
            | ',' :: r =>
              let (ms, rest) := members fuel r
              ((k, v) :: ms, rest)
            | '\x7d' :: r => ([(k, v)], some r)
            | _ => ([(k, v)], none)
        | _ => ([(k, .broken)], none)
    | _ => ([], none)

end

/-- Reads the value at the front of a text. Each call takes a character, or is
    followed by one that does. -/
def read (text : String) : Source × Option (List Char) :=
  value (2 * text.toList.length + 2) text.toList

/-- The structure of a text that holds one value and nothing else. -/
def ofText? (text : String) : Option Source :=
  match read text with
  | (v, some rest) => if rest.all isSpace then some v else none
  | (_, none) => none

/-! ## Soundness of the grammar -/

mutual

/-- Does the grammar hold in all of a structure? -/
def isSound : Source → Bool
  | .broken => false
  | .array vs closed => closed && areSound vs
  | .object ms closed => closed && membersAreSound ms
  | _ => true

def areSound : List Source → Bool
  | [] => true
  | v :: vs => v.isSound && areSound vs

def membersAreSound : List (Option String × Source) → Bool
  | [] => true
  | (_, v) :: ms => v.isSound && membersAreSound ms

end

mutual

/-- Does every string and every number of a sound structure have a value? -/
def hasValues : Source → Bool
  | .number n => n.isSome
  | .string s => s.isSome
  | .array vs _ => allHaveValues vs
  | .object ms _ => membersHaveValues ms
  | _ => true

def allHaveValues : List Source → Bool
  | [] => true
  | v :: vs => v.hasValues && allHaveValues vs

def membersHaveValues : List (Option String × Source) → Bool
  | [] => true
  | (k, v) :: ms => k.isSome && v.hasValues && membersHaveValues ms

end

mutual

/-- The depth of nested arrays and objects. -/
def depth : Source → Nat
  | .array vs _ => itemDepth vs + 1
  | .object ms _ => memberDepth ms + 1
  | _ => 0

def itemDepth : List Source → Nat
  | [] => 0
  | v :: vs => max v.depth (itemDepth vs)

def memberDepth : List (Option String × Source) → Nat
  | [] => 0
  | (_, v) :: ms => max v.depth (memberDepth ms)

end

mutual

/-- The value of a structure, with `null` for what has none. -/
def toJson : Source → Json
  | .broken | .null => .null
  | .bool b => .bool b
  | .number n => Json.ofOption .number n
  | .string s => Json.ofOption .string s
  | .array vs _ => .array (itemsToJson vs)
  | .object ms _ => .object (membersToJson ms)

def itemsToJson : List Source → List Json
  | [] => []
  | v :: vs => v.toJson :: itemsToJson vs

def membersToJson : List (Option String × Source) → List (String × Json)
  | [] => []
  | (k, v) :: ms => (k.getD "", v.toJson) :: membersToJson ms

end

/-- Can a structure be held as a value: sound, with values throughout, and nested
    less than 128 deep? -/
def isValue (v : Source) : Bool := v.isSound && v.hasValues && v.depth < 128

end VpnNode.Json.Source
