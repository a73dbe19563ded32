import VpnNode.Toml.Quoted
import VpnNode.Toml.Scalar
import VpnNode.Toml.Table

/-!
# TOML statements

A text is a list of statements, each on lines of its own: headers and keys with values. A
key has at most 79 parts, and values nest at most 79 deep.
-/

namespace VpnNode.Toml

/-- A statement of a text. -/
inductive Statement where
  /-- A header in brackets. -/
  | table (path : List String)
  /-- A header in double brackets. -/
  | element (path : List String)
  | pair (path : List String) (v : Value)

namespace Statement

open Quoted (isPlain isSpace)

/-- The largest number of parts of a key, and of values inside one another. -/
def depthLimit : Nat := 79

/-! ## Blanks and line ends -/

/-- Drops spaces and tabs. -/
def skipSpace (cs : List Char) : List Char := cs.dropWhile isSpace

/-- Reads up to the end of the line, where a comment may stand. -/
def lineEnd (cs : List Char) : Option (List Char) :=
  let rest := match skipSpace cs with
    | '#' :: r => r.dropWhile isPlain
    | r => r
  match rest with
  | [] => some []
  | '\n' :: r => some r
  | '\r' :: '\n' :: r => some r
  | _ => none

/-- Drops blanks, line breaks and comments; stops at a character that no comment may hold. -/
def skipVoid (comment : Bool) : List Char → List Char
  | [] => []
  | c :: r =>
    if c = '\n' then skipVoid false r
    else if c = '\r' ∧ Quoted.atBreak r then skipVoid comment r
    else if comment then if isPlain c then skipVoid true r else c :: r
    else if isSpace c then skipVoid false r
    else if c = '#' then skipVoid true r
    else c :: r

/-! ## Keys -/

/-- Characters of a key without quotes. -/
def isBareChar (c : Char) : Bool := c.isAlphanum || c == '-' || c == '_'

/-- Reads one part of a key. -/
def keyPart (cs : List Char) : Option (String × List Char) :=
  match Quoted.single cs with
  | some (s, r) => some (String.ofList s, r)
  | none =>
    let bare := cs.takeWhile isBareChar
    if bare.isEmpty then none else some (String.ofList bare, cs.dropWhile isBareChar)

/-- Reads a key of at most so many parts, and the spaces around it. -/
def key : Nat → List Char → Option (List String × List Char)
  | 0, _ => none
  | n + 1, cs => do
    let (part, r) ← keyPart (skipSpace cs)
    match skipSpace r with
    | '.' :: r =>
      let (parts, r) ← key n r
      return (part :: parts, r)
    | r => return ([part], r)

/-- Reads a key, and the spaces around it. -/
def path (cs : List Char) : Option (List String × List Char) := key depthLimit cs

/-! ## Values -/

/-- Reads the items of an array after its opening bracket, at most so many. -/
def items (item : List Char → Option (Value × List Char)) :
    Nat → List Char → Option (List Value × List Char)
  | 0, _ => none
  | n + 1, cs =>
    match skipVoid false cs with
    | ']' :: r => some ([], r)
    | cs => do
      let (v, r) ← item cs
      match skipVoid false r with
      | ',' :: r =>
        let (vs, r) ← items item n r
        return (v :: vs, r)
      | ']' :: r => return ([v], r)
      | _ => none

/-- Reads the members of a table in braces, at most so many, and adds them to others. -/
def members (item : List Char → Option (Value × List Char)) :
    Nat → Members → List Char → Option (Members × List Char)
  | 0, _, _ => none
  | n + 1, ms, cs => do
    let (ks, r) ← path cs
    match r with
    | '=' :: r =>
      let (v, r) ← item (skipSpace r)
      let ms ← ms.put v ks
      match skipSpace r with
      | ',' :: r => members item n ms r
      | '}' :: r => return (ms, r)
      | _ => none
    | _ => none

/-- Reads a value that has no parts. -/
def plainValue (cs : List Char) : Option (Value × List Char) :=
  match cs with
  | '"' :: _ | '\'' :: _ => (Quoted.read cs).map fun (s, r) => (.text (String.ofList s), r)
  | cs => readWord cs

/-- Reads a value with at most so many others around one inside it. -/
def value : Nat → List Char → Option (Value × List Char)
  | 0, cs => plainValue cs
  | depth + 1, cs =>
    match cs with
    | '[' :: r => (items (value depth) (r.length + 1) r).map fun (vs, r) => (.array vs, r)
    | '{' :: r =>
      match skipSpace r with
      | '}' :: r => some (.table .inline [], r)
      | r =>
        (members (value depth) (r.length + 1) [] r).map fun (ms, r) => (.table .inline ms, r)
    | cs => plainValue cs

/-! ## Statements -/

/-- Reads a statement and the end of its last line. -/
def read (cs : List Char) : Option (Statement × List Char) :=
  match cs with
  | '[' :: '[' :: r => do
    match ← path r with
    | (ks, ']' :: ']' :: r) => return (.element ks, ← lineEnd r)
    | _ => none
  | '[' :: r => do
    match ← path r with
    | (ks, ']' :: r) => return (.table ks, ← lineEnd r)
    | _ => none
  | cs => do
    match ← path cs with
    | (ks, '=' :: r) =>
      let (v, r) ← value depthLimit (skipSpace r)
      return (.pair ks v, ← lineEnd r)
    | _ => none

/-- Reads the statements of a text with at most so many lines. -/
def readAll : Nat → List Char → Option (List Statement)
  | 0, _ => none
  | n + 1, cs =>
    let cs := skipSpace cs
    match cs with
    | [] => some []
    | '#' :: _ | '\n' :: _ | '\r' :: _ => do readAll n (← lineEnd cs)
    | cs => do
      let (s, r) ← read cs
      return s :: (← readAll n r)

/-- The statements of a text, which may begin with a byte order mark. -/
def ofText? (text : String) : Option (List Statement) :=
  let cs := match text.toList with
    | '\uFEFF' :: r => r
    | r => r
  readAll (cs.length + 1) cs

/-- A line break ends a line, and what follows it is left. -/
@[simp] theorem lineEnd_newline (r : List Char) : lineEnd ('\n' :: r) = some r := rfl

end Statement

/-! ## Documents -/

/-- A text as far as it has been read: its members, and the header that was read last. -/
structure Draft where
  members : Members := []
  header : List String := []

/-- What a statement makes of a text. -/
def Draft.add (d : Draft) : Statement → Option Draft
  | .table path => (d.members.openTable path).map fun members => ⟨members, path⟩
  | .element path => (d.members.openElement path).map fun members => ⟨members, path⟩
  | .pair path v =>
    (d.members.atOpen (Members.put v path) d.header).map fun members => ⟨members, d.header⟩

/-- The members of a text. -/
def Members.ofText? (text : String) : Option Members := do
  let statements ← Statement.ofText? text
  let d ← statements.foldlM Draft.add {}
  return d.members

end VpnNode.Toml
