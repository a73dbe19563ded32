import Std.Data.ExtTreeMap
import VpnNode.Ledger.Filter
import VpnNode.Session.Validate

/-!
# The ledger

The ledger keeps the rows of the sessions by id, and an index from peer keys to ids.
A row that cannot be read is kept as such: it fails whoever needs it.

A write comes in two steps. A look-up finds the ids of the rows that match; a
transaction then reads those rows again, writes them and succeeds as a whole or
changes nothing. Between the two the ledger may have changed: an update passes over
rows that no longer match, a removal takes whatever row now stands under the id.

Main statement:

* `find_all`: the filter without fields finds every row of a readable ledger.
-/

namespace VpnNode

/-- What is stored under an id. -/
inductive Ledger.Entry where
  | row (s : Session)
  | unreadable
  deriving DecidableEq

/-- The rows by id, and the ids by peer key. -/
structure Ledger where
  rows : Std.ExtTreeMap UInt64 Ledger.Entry
  keys : Std.ExtTreeMap String UInt64

namespace Ledger

/-- Why the ledger refuses an operation. -/
inductive Error where
  /-- A row cannot be read. -/
  | unreadable
  /-- A row with this id or this peer key exists. -/
  | duplicate (field value : String)
  | invalid (error : Session.Error)
  | invalidUpdate (fault : Base64.Fault)
  deriving DecidableEq

def Error.message : Error → String
  | .unreadable => "failed to encode or decode session"
  | .duplicate field value => s!"session with {field} '{value}' already exists"
  | .invalid error => s!"invalid session: {error.message}"
  | .invalidUpdate fault => s!"invalid update: signature: {fault.message}"

/-- The name of the kind of error. -/
def Error.kind : Error → String
  | .unreadable => "Codec"
  | .duplicate _ _ => "Duplicate"
  | .invalid error => "Invalid." ++ error.kind
  | .invalidUpdate _ => "InvalidUpdate"

/-- How an operation fails: with an error that the caller gets, or on a corrupt value
    that ends the task. -/
inductive Failure where
  | error (e : Error)
  | corrupt (c : Session.Corruption)
  deriving DecidableEq

/-- A ledger without rows. -/
def empty : Ledger := ⟨∅, ∅⟩

/-- The number of rows. -/
def count (l : Ledger) : Nat := l.rows.size

/-! ## Reading -/

/-- The row under an id. -/
def get (l : Ledger) (id : UInt64) : Except Error (Option Session) :=
  match l.rows[id]? with
  | none => .ok none
  | some (.row s) => .ok (some s)
  | some .unreadable => .error .unreadable

/-- The rows of entries, up to the first that cannot be read. -/
def readable : List (UInt64 × Entry) → Except Error (List Session)
  | [] => .ok []
  | (_, .row s) :: r => do return s :: (← readable r)
  | (_, .unreadable) :: _ => .error .unreadable

/-- All rows by ascending id. -/
def scan (l : Ledger) : Except Error (List Session) := readable l.rows.toList

/-- The only id under which a filter can match, if it fixes the id or the peer key;
    the inner `none` stands for a peer key that is not in the index. -/
def indexedId (l : Ledger) (f : Filter) : Option (Option UInt64) :=
  match f.id, f.peerKey with
  | some id, _ => some (some id)
  | none, some key => some l.keys[key]?
  | none, none => none

/-- The rows that match a filter, by ascending id. Where the filter fixes the id or the
    peer key, only that row is read; otherwise all of them are. -/
def find (l : Ledger) (f : Filter) : Except Error (List Session) :=
  match l.indexedId f with
  | some none => .ok []
  | some (some id) => do
    let s ← l.get id
    return s.toList.filter f.matchesRow
  | none => do
    let ss ← l.scan
    return ss.filter f.matchesRow

def findOne (l : Ledger) (f : Filter) : Except Error (Option Session) := do
  return (← l.find f).head?

/-- The ids of the rows that match a filter. -/
def matchingIds (l : Ledger) (f : Filter) : Except Error (List UInt64) := do
  return (← l.find f).map (·.id)

/-! ## Transactions -/

/-- Adds a row whose id and peer key are new. -/
def insertRow (l : Ledger) (s : Session) : Except Error Ledger :=
  if l.rows.contains s.id then .error (.duplicate "id" (Decimal.render s.id.toNat))
  else if l.keys.contains s.peerKey then .error (.duplicate "peer_key" s.peerKey)
  else .ok ⟨l.rows.insert s.id (.row s), l.keys.insert s.peerKey s.id⟩

/-- Adds rows; all of them or none. Every row is checked before the first is added. -/
def insertMany (l : Ledger) (ss : List Session) : Except Error Ledger := do
  ss.forM fun s => s.validate.mapError .invalid
  ss.foldlM insertRow l

def insert (l : Ledger) (s : Session) : Except Error Ledger := l.insertMany [s]

/-- Writes an update into the rows under these ids that match the filter; gives the
    rows as written. -/
def updateIds (l : Ledger) (f : Filter) (u : Update) :
    List UInt64 → Except Failure (List Session × Ledger)
  | [] => .ok ([], l)
  | id :: ids =>
    match l.get id with
    | .error e => .error (.error e)
    | .ok none => l.updateIds f u ids
    | .ok (some s) =>
      if f.matchesRow s then
        match u.apply s with
        | .error c => .error (.corrupt c)
        | .ok s =>
          match updateIds { l with rows := l.rows.insert id (.row s) } f u ids with
          | .error e => .error e
          | .ok (written, l) => .ok (s :: written, l)
      else l.updateIds f u ids

/-- Removes the rows under these ids, and the index entries of their peer keys; gives
    the rows that were there. -/
def deleteIds (l : Ledger) : List UInt64 → Except Error (List Session × Ledger)
  | [] => .ok ([], l)
  | id :: ids => do
    match ← l.get id with
    | none => l.deleteIds ids
    | some s =>
      let (removed, l) ← deleteIds ⟨l.rows.erase id, l.keys.erase s.peerKey⟩ ids
      return (s :: removed, l)

/-! ## Writes -/

/-- Makes an error a failure. -/
def failing (x : Except Error α) : Except Failure α := x.mapError .error

/-- Updates the first row that matches; gives it as written. -/
def updateOne (l : Ledger) (f : Filter) (u : Update) :
    Except Failure (Option Session × Ledger) := do
  failing (u.validate.mapError .invalidUpdate)
  match (← failing (l.matchingIds f)).head? with
  | none => return (none, l)
  | some id =>
    let (written, l) ← l.updateIds f u [id]
    return (written.getLast?, l)

/-- Updates every row that matches; gives their number. -/
def updateMany (l : Ledger) (f : Filter) (u : Update) : Except Failure (Nat × Ledger) := do
  failing (u.validate.mapError .invalidUpdate)
  let (written, l) ← l.updateIds f u (← failing (l.matchingIds f))
  return (written.length, l)

/-- Removes the first row that matches; gives it. -/
def deleteOne (l : Ledger) (f : Filter) : Except Error (Option Session × Ledger) := do
  match (← l.matchingIds f).head? with
  | none => return (none, l)
  | some id =>
    let (removed, l) ← l.deleteIds [id]
    return (removed.getLast?, l)

/-- Removes every row that matches; gives their number. -/
def deleteMany (l : Ledger) (f : Filter) : Except Error (Nat × Ledger) := do
  let (removed, l) ← l.deleteIds (← l.matchingIds f)
  return (removed.length, l)

/-- The filter without fields finds every row of a readable ledger. -/
theorem find_all (l : Ledger) : l.find Filter.all = l.scan := by
  have h : l.indexedId Filter.all = none := rfl
  unfold find
  rw [h]
  cases l.scan with
  | error e => rfl
  | ok ss => simp [bind, Except.bind, pure, Except.pure]

end VpnNode.Ledger
