import VpnNode.Json.Source

/-!
# Reading records

A record is a JSON object with known members. Unknown members are passed over, a
member given twice and a member left out without a default are refused. A record
may also be written as an array of its members in order, where members with a
default may be left out at the end.

A refusal says whether the text breaks off or has another shape than the record.
Both are found in the order of the text, so of two flaws the first one counts.

A union of records is a record with one more member, `type`, that names the case;
as an array it starts with that name.
-/

namespace VpnNode.Json

/-- Why a text is refused. -/
inductive Flaw where
  /-- The text breaks the grammar, or holds a string or a number without a value. -/
  | malformed
  /-- The text has another shape than is wanted. -/
  | mismatch
  deriving DecidableEq, Repr

/-- A reader of values of one type. -/
abbrev Reader (α : Type) := Source → Except Flaw α

namespace Reader

/-! ## Scalars -/

/-- What a scalar reader answers to a structure that it does not want. -/
def unwanted : Source → Except Flaw α
  | .broken | .number none | .string none => .error .malformed
  | _ => .error .mismatch

def text : Reader String
  | .string (some s) => .ok s
  | v => unwanted v

def flag : Reader Bool
  | .bool b => .ok b
  | v => unwanted v

/-- A whole number in a range. -/
def integer (lo hi : Int) : Reader Int
  | .number (some (.integer n)) => if lo ≤ n ∧ n ≤ hi then .ok n else .error .mismatch
  | v => unwanted v

def uint64 : Reader UInt64 := fun v => (integer 0 (UInt64.size - 1) v).map fun n =>
  UInt64.ofNat n.toNat

def uint32 : Reader UInt32 := fun v => (integer 0 (UInt32.size - 1) v).map fun n =>
  UInt32.ofNat n.toNat

def int64 : Reader Int64 := fun v => 
  (integer Int64.minValue.toInt Int64.maxValue.toInt v).map Int64.ofInt

/-- A number of any kind, as a binary fraction. -/
def real : Reader Binary64
  | .number (some (.real x)) => .ok x
  | .number (some (.integer n)) => .ok (Binary64.ofInt n)
  | v => unwanted v

/-- Reads a text and then what the text spells. -/
def spelled (parse? : String → Option α) : Reader α := fun v => do
  let s ← text v
  (parse? s).elim (.error .mismatch) .ok

/-- The name of a case without contents: a string, or an object with that one
    member, whose value is `null`. -/
def caseName (parse? : String → Option α) : Reader α
  | .string (some s) => (parse? s).elim (.error .mismatch) .ok
  | .object [(some k, .null)] true => (parse? k).elim (.error .mismatch) .ok
  | .object _ _ => .error .mismatch
  | _ => .error .malformed

/-- The name of a case inside a union, where an empty object may stand for `null`. -/
def innerCaseName (parse? : String → Option α) : Reader α
  | .object [(some k, .object [] true)] true => (parse? k).elim (.error .mismatch) .ok
  | v => caseName parse? v

/-- The items of an array. -/
def list (item : Reader α) : Reader (List α)
  | .array vs closed => do
    let xs ← vs.mapM item
    if closed then .ok xs else .error .malformed
  | v => unwanted v

end Reader

/-- A record in the course of reading: its members, the last one outermost, each
    with its value if that has come. -/
inductive Record : Type → Type 1 where
  | pure (a : α) : Record α
  | field (rest : Record (β → α)) (name : String) (read : Reader β) (fallback : Option β)
      (value : Option β) : Record α

namespace Record

/-- Adds a member that must be given. -/
def required (rest : Record (β → α)) (name : String) (read : Reader β) : Record α :=
  .field rest name read none none

/-- Adds a member with a default. -/
def optional (rest : Record (β → α)) (name : String) (read : Reader β) (fallback : β) : Record α :=
  .field rest name read (some fallback) none

/-- Takes one member of an object; `none` if the record has no such member. -/
def take (key : String) (v : Source) : Record α → Except Flaw (Option (Record α))
  | .pure _ => .ok none
  | .field rest name read fallback value =>
    if name = key then
      match value, read v with
      | some _, _ => .error .mismatch
      | none, .error e => .error e
      | none, .ok b => .ok (some (.field rest name read fallback (some b)))
    else
      match take key v rest with
      | .error e => .error e
      | .ok none => .ok none
      | .ok (some rest) => .ok (some (.field rest name read fallback value))

/-- Takes the members of an object in order. -/
def takeAll (r : Record α) : List (Option String × Source) → Except Flaw (Record α)
  | [] => .ok r
  | (none, _) :: _ => .error .malformed
  | (some k, v) :: ms =>
    match take k v r with
    | .error e => .error e
    | .ok (some r) => takeAll r ms
    | .ok none => if v.isSound then takeAll r ms else .error .malformed

/-- The value of a record, where each member has come or has a default. -/
def finish : Record α → Except Flaw α
  | .pure a => .ok a
  | .field rest _ _ fallback value => do
    let f ← rest.finish
    match value, fallback with
    | some b, _ => return f b
    | none, some b => return f b
    | none, none => .error .mismatch

/-- Takes the items of an array in order; gives the value and the items left over.
    Where too few items came, `closed` says whether that is all. -/
def ofItems (closed : Bool) : Record α → List Source → Except Flaw (α × List Source)
  | .pure a, vs => .ok (a, vs)
  | .field rest _ read fallback _, vs => do
    let (f, vs) ← rest.ofItems closed vs
    match vs, fallback with
    | v :: vs, _ => return (f (← read v), vs)
    | [], some b => if closed then return (f b, []) else .error .malformed
    | [], none => .error (if closed then .mismatch else .malformed)

/-- Reads a record from an object or an array. -/
def read (r : Record α) : Reader α
  | .object ms closed =>
    match r.takeAll ms with
    | .error e => .error e
    | .ok r => if closed then r.finish else .error .malformed
  | .array vs closed => do
    let (a, rest) ← r.ofItems closed vs
    if closed ∧ rest.isEmpty then return a else .error .malformed
  | v => Reader.unwanted v

end Record

/-- Reads a union of records: the member `type` picks the record. All of the
    structure must be a value. -/
def Reader.tagged (case? : String → Option (Record α)) : Reader α := fun v =>
  if !v.isValue then .error .malformed
  else match v with
  | .object ms closed =>
    match ms.filter (fun m => m.1 == some "type") with
    | [(_, .string (some tag))] =>
      match case? tag with
      | some r => r.read (.object (ms.filter fun m => m.1 != some "type") closed)
      | none => .error .mismatch
    | _ => .error .mismatch
  | .array (.string (some tag) :: vs) closed =>
    match case? tag with
    | some r => r.read (.array vs closed)
    | none => .error .mismatch
  | _ => .error .mismatch

/-- Reads a text that holds one value and nothing else. -/
def Reader.ofText? (r : Reader α) (text : String) : Option α :=
  (Source.ofText? text).bind fun v => (r v).toOption

end VpnNode.Json
