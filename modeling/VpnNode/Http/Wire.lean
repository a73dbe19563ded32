import VpnNode.Http.Basic

/-!
# HTTP messages as octets

A message is a head and a body. The head is a list of lines and ends with an empty one; its
first line says what the message is, the others are headers. A line ends with a line feed,
which may follow a carriage return. The head says how far the body goes: for a number of
octets, in chunks up to an empty one, or to the end of the connection.
-/

namespace VpnNode.Http

/-- The head of a message. -/
structure Head where
  first : String
  headers : List (String × String)
  deriving DecidableEq, Repr

/-- How far a body goes. -/
inductive Extent where
  | sized (n : Nat)
  | chunked
  | untilClose
  deriving DecidableEq, Repr

namespace Head

/-! ## Text -/

/-- The lines of a head. -/
def lines (h : Head) : List String := h.first :: h.headers.map fun (name, value) => s!"{name}: {value}"

/-- Lines with their endings, and the empty line after them. -/
def joinLines (lines : List (List UInt8)) : List UInt8 := lines.flatMap (· ++ [13, 10]) ++ [13, 10]

/-- The octets of a head. -/
def render (h : Head) : List UInt8 := joinLines (h.lines.map Utf8.octets)

/-- A line without its ending, from its octets in reverse. -/
def lineOfReversed : List UInt8 → List UInt8
  | 13 :: r => r.reverse
  | r => r.reverse

/-- Splits octets after the first empty line into the lines before it and the octets after
    it. The lines so far and the octets of the line at hand come in reverse. -/
def splitLines (lines : List (List UInt8)) (reversed : List UInt8) :
    List UInt8 → Option (List (List UInt8) × List UInt8)
  | [] => none
  | b :: r =>
    if b = 10 then
      let l := lineOfReversed reversed
      if l.isEmpty then some (lines.reverse, r) else splitLines (l :: lines) [] r
    else splitLines lines (b :: reversed) r

/-- A header in a line. -/
def headerOfLine (l : List UInt8) : String × String :=
  let cs := (Utf8.decodeLossy l).toList
  (Text.asciiLower (String.ofList (cs.takeWhile (· ≠ ':'))),
    Text.trim (String.ofList ((cs.dropWhile (· ≠ ':')).drop 1)))

/-- The head at the front of octets, and the octets after it; nothing if it is not all
    there. -/
def split? (octets : List UInt8) : Option (Head × List UInt8) :=
  match splitLines [] [] octets with
  | none => none
  | some ([], rest) => some (⟨"", []⟩, rest)
  | some (first :: lines, rest) => some (⟨Utf8.decodeLossy first, lines.map headerOfLine⟩, rest)

/-! ## Meaning -/

/-- The value of a header, whose name is given in lower case. -/
def header? (h : Head) (name : String) : Option String := h.headers.lookup name

/-- What the headers say about the body, if anything. -/
def extent? (h : Head) : Option Extent :=
  match h.header? "transfer-encoding" with
  | some coding =>
    some (if Text.contains "chunked".toList (Text.asciiLower coding).toList then .chunked else .untilClose)
  | none => (h.header? "content-length").bind fun n => (Decimal.parse? n).map .sized

/-- The words of the first line. -/
def words (h : Head) : List String := (Text.split ' ' h.first.toList).map String.ofList

/-- The status in the head of a response. -/
def status? (h : Head) : Option Nat := do Decimal.parse? (← h.words[1]?)

/-- How far the body of a response goes. -/
def responseExtent (h : Head) : Extent :=
  match h.status? with
  | some 204 | some 304 => .sized 0
  | _ => h.extent?.getD .untilClose

/-- How far the body of a request goes. -/
def requestExtent (h : Head) : Extent := h.extent?.getD (.sized 0)

end Head

/-! ## Bodies -/

/-- The number in hexadecimal digits at the front of a line. -/
def chunkSize (l : List UInt8) : Nat :=
  (l.map fun b => Hex.digit? (Char.ofNat b.toNat)).takeWhile Option.isSome
    |>.foldl (fun n d => n * 16 + d.getD 0) 0

/-- The octets up to the next line feed, and those after it. -/
def cutLine (octets : List UInt8) : List UInt8 × List UInt8 :=
  (octets.takeWhile (· ≠ 10), (octets.dropWhile (· ≠ 10)).drop 1)

/-- The octets in chunks, and whether the empty chunk has come. Every chunk takes octets,
    so their number bounds the number of chunks. -/
def unchunk : Nat → List UInt8 → List UInt8 × Bool
  | 0, _ => ([], false)
  | fuel + 1, octets =>
    let (l, rest) := cutLine octets
    let size := chunkSize l
    if l.isEmpty then ([], false)
    else if size = 0 then ([], true)
    else
      let (more, complete) := unchunk fuel (cutLine (rest.drop size)).2
      (rest.take size ++ more, complete && size ≤ rest.length)

/-- The body in the octets that have come, and whether that is all of it. -/
def Extent.body (e : Extent) (octets : List UInt8) : List UInt8 × Bool :=
  match e with
  | .sized n => (octets.take n, n ≤ octets.length)
  | .chunked => unchunk octets.length octets
  | .untilClose => (octets, true)

/-! ## Messages -/

/-- Is a message all there, so that nothing of it is still to come? -/
def isWhole (extent : Head → Extent) (octets : List UInt8) : Bool :=
  match Head.split? octets with
  | none => false
  | some (head, rest) =>
    match extent head with
    | .untilClose => false
    | e => (e.body rest).2

/-- The octets of a body. -/
def Body.octets : Body → List UInt8
  | .empty => []
  | .json v => Utf8.octets v.render
  | .zeros n => List.replicate n 0

/-- The number of octets of a body. -/
def Body.size : Body → Nat
  | .zeros n => n
  | b => b.octets.length

/-- What the headers of a request say about its body. -/
def Body.headers (b : Body) : List (String × String) :=
  match b with
  | .empty => []
  | .json _ => [("content-type", "application/json"), ("content-length", Decimal.render b.size)]
  | .zeros n => [("content-length", Decimal.render n)]

/-- The head of a request on a connection of its own. -/
def Request.head (r : Request) : Head where
  first := s!"{r.method.name} {r.url.target} HTTP/1.1"
  headers := [("host", r.url.authority), ("accept", "*/*"), ("connection", "close")] ++ r.body.headers

/-- The response in the octets of a connection that has been closed. -/
def Response.ofOctets? (octets : List UInt8) : Option Response := do
  let (head, rest) ← Head.split? octets
  let status ← head.status?
  let (body, complete) := head.responseExtent.body rest
  return { status, body, complete }

end VpnNode.Http
