import VpnNode.Ledger.Basic
import VpnNode.Session.Row

/-!
# Ledgers on disk

A ledger on disk may hold what no operation has written: rows under ids that are not
their own, rows that cannot be read, and index entries of any length. An id in the
index is its last eight octets, the most significant first; missing octets are zero.
-/

namespace VpnNode.Ledger

/-- What is laid down in the two trees of a ledger on disk, in order. -/
structure Image where
  rows : List (UInt64 × String)
  keys : List (String × List UInt8)

/-- The entry of a stored text. -/
def Entry.ofText (text : String) : Entry :=
  match Session.decode? text with
  | some s => .row s
  | none => .unreadable

/-- The id that octets spell. -/
def idOfOctets (octets : List UInt8) : UInt64 :=
  (octets.drop (octets.length - 8)).foldl (fun n b => n * 256 + b.toUInt64) 0

/-- The ledger after an image was laid over it. -/
def withImage (l : Ledger) (image : Image) : Ledger where
  rows := image.rows.foldl (fun rows (id, text) => rows.insert id (Entry.ofText text)) l.rows
  keys := image.keys.foldl (fun keys (key, octets) => keys.insert key (idOfOctets octets)) l.keys

end VpnNode.Ledger
