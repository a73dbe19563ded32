import VpnNode.Codec.Form
import VpnNode.Text.Blank
import VpnNode.Text.Decimal
import VpnNode.Text.Split

/-!
# URLs as they are sent

A URL is an origin, a path, and perhaps a query and a fragment. In the path empty and
dotted segments are resolved where they have a meaning, and in each part the characters
that it may not hold are percent-encoded. An empty path is a slash.
-/

namespace VpnNode

/-- A URL in its parts. -/
structure Url where
  /-- Scheme and authority, as given. -/
  origin : String
  path : String := "/"
  query : Option String := none
  fragment : Option String := none
  deriving DecidableEq, Repr

namespace Url

/-- Is a character encoded in every part? -/
def isForeign (c : Char) : Bool := c.toNat < 33 || 126 < c.toNat || c == '"' || c == '<' || c == '>'

/-- The parts of a URL that differ in the characters they hold. -/
inductive Part where
  | path
  | query
  | fragment
  deriving DecidableEq, Repr

/-- Is a character encoded in a part? -/
def Part.encodes (p : Part) (c : Char) : Bool :=
  isForeign c ||
    match p with
    | .path => c == '\x60' || c == '\x7b' || c == '\x7d'
    | .query => c == '\''
    | .fragment => c == '\x60'

/-- Text in a part of a URL. -/
def encode (p : Part) (cs : List Char) : List Char :=
  cs.flatMap fun c =>
    if p.encodes c then
      (Utf8.octets (String.ofList [c])).flatMap fun b =>
        ['%', (Hex.digit (b.toNat / 16)).toUpper, (Hex.digit (b.toNat % 16)).toUpper]
    else [c]

/-- Does a segment stand for its own directory? -/
def isDot (segment : String) : Bool :=
  segment == "." || Text.asciiLower segment == "%2e"

/-- Does a segment stand for the directory above? -/
def isDotDot (segment : String) : Bool :=
  [ "..", ".%2e", "%2e.", "%2e%2e" ].contains (Text.asciiLower segment)

/-- Resolves segments with a meaning; `above` holds what has been resolved, the last one
    first. A path that ends in such a segment ends in a slash. -/
def resolve (above : List String) : List String → List String
  | [] => above.reverse
  | s :: r =>
    if isDotDot s then resolve (if r.isEmpty then "" :: above.tail else above.tail) r
    else if isDot s then resolve (if r.isEmpty then "" :: above else above) r
    else resolve (s :: above) r

/-- The path of a URL, from what stands between the origin and the query. -/
def pathOf (cs : List Char) : String :=
  let cs := cs.map fun c => if c = '\\' then '/' else c
  let segments := (Text.split '/' (cs.drop 1)).map fun s => String.ofList (encode .path s)
  "/" ++ String.intercalate "/" (resolve [] segments)

/-- The characters up to the first of some marks, and the others. -/
def cut (marks : List Char) (cs : List Char) : List Char × List Char :=
  (cs.takeWhile fun c => !marks.contains c, cs.dropWhile fun c => !marks.contains c)

/-- Origin and rest of a URL. -/
def splitOrigin : List Char → List Char × List Char
  | ':' :: '/' :: '/' :: r =>
    let (authority, rest) := cut ['/', '\\', '?', '#'] r
    (':' :: '/' :: '/' :: authority, rest)
  | [] => ([], [])
  | c :: r =>
    let (origin, rest) := splitOrigin r
    (c :: origin, rest)

/-- Reads a URL. Tabs and line breaks are dropped wherever they stand, and blanks and
    control characters at the ends. -/
def parse (text : String) : Url :=
  let outer (c : Char) : Bool := c.toNat ≤ 32
  let cs := ((text.toList.dropWhile outer).reverse.dropWhile outer).reverse
  let cs := cs.filter fun c => c != '\t' && c != '\n' && c != '\r'
  let (origin, rest) := splitOrigin cs
  let (path, rest) := cut ['?', '#'] rest
  let (query, rest) := match rest with
    | '?' :: r => let (q, r) := cut ['#'] r; (some q, r)
    | r => (none, r)
  let fragment := match rest with
    | '#' :: r => some r
    | _ => none
  { origin := String.ofList origin
    path := pathOf path
    query := query.map fun q => String.ofList (encode .query q)
    fragment := fragment.map fun f => String.ofList (encode .fragment f) }

/-- Adds a value to the query. -/
def withQuery (u : Url) (key value : String) : Url :=
  let pair := Form.encode key ++ "=" ++ Form.encode value
  { u with query := some (match u.query with
    | some q => if q.isEmpty then pair else q ++ "&" ++ pair
    | none => pair) }

/-- The text of a URL. -/
def render (u : Url) : String :=
  u.origin ++ u.path ++ (u.query.elim "" ("?" ++ ·)) ++ (u.fragment.elim "" ("#" ++ ·))

/-- What is asked of the server: the path and the query. -/
def target (u : Url) : String := u.path ++ u.query.elim "" ("?" ++ ·)

def scheme (u : Url) : String := String.ofList (u.origin.toList.takeWhile (· ≠ ':'))

/-- The server: what stands between the scheme and the path. -/
def authority (u : Url) : String := String.ofList ((u.origin.toList.dropWhile (· ≠ ':')).drop 3)

/-- The name of a server and its port, which is 80 unless an authority says otherwise; a
    user in front of the name and the brackets around it are left out. -/
def serverOf? (authority : String) : Option (String × UInt16) :=
  let cs := (authority.toList.reverse.takeWhile (· ≠ '@')).reverse
  let bare (name : List Char) : String := String.ofList (name.filter fun c => c ≠ '[' && c ≠ ']')
  let port := (cs.reverse.takeWhile fun c => c ≠ ':' && c ≠ ']').reverse
  let name := cs.take (cs.length - port.length)
  if name.getLast? = some ':' then do
    let n ← if port.isEmpty then some 80 else Decimal.parse? (String.ofList port)
    if n < UInt16.size then some (bare name.dropLast, UInt16.ofNat n) else none
  else some (bare cs, 80)

/-- Appends to a URL that may end in slashes. -/
def under (base path : String) : Url :=
  let kept := (base.toList.reverse.dropWhile (· == '/')).reverse
  parse (String.ofList kept ++ path)

end Url

end VpnNode
