import VpnNode.Ledger.Image

/-!
# The text of a ledger

A ledger is kept as a JSON text with its rows and its index. A row that cannot be read is
kept as an empty text, which cannot be read either.

Main statements:

* `idOfOctets_octetsOfId`: an id is read back from its octets.
* `ofText_text`: a row that cannot be read stays one.
-/

namespace VpnNode.Ledger

/-! ## The image of a ledger -/

/-- The octets of an id, the most significant first. -/
def octetsOfId (id : UInt64) : List UInt8 :=
  [56, 48, 40, 32, 24, 16, 8, 0].map fun place => UInt8.ofNat (id.toNat >>> place)

/-- The stored text of an entry. -/
def Entry.text : Entry → String
  | .row s => s.encode
  | .unreadable => ""

/-- What a ledger lays down on disk. -/
def image (l : Ledger) : Image where
  rows := l.rows.toList.map fun (id, e) => (id, e.text)
  keys := l.keys.toList.map fun (key, id) => (key, octetsOfId id)

/-! ## The text of an image -/

namespace Image

open Json

def toJson (i : Image) : Json :=
  .object [
    ("sessions", .array (i.rows.map fun (id, text) =>
      .object [("id", .ofNat id.toNat), ("json", .string text)])),
    ("peer_keys", .array (i.keys.map fun (key, octets) =>
      .object [("key", .string key), ("hex", .string (Hex.render octets))]))]

def rowRecord : Record (UInt64 × String) :=
  (Record.pure Prod.mk)
    |>.required "id" Reader.uint64
    |>.required "json" Reader.text

def keyRecord : Record (String × List UInt8) :=
  (Record.pure Prod.mk)
    |>.required "key" Reader.text
    |>.required "hex" (Reader.spelled Hex.parse?)

def record : Record Image :=
  (Record.pure Image.mk)
    |>.required "sessions" (Reader.list rowRecord.read)
    |>.required "peer_keys" (Reader.list keyRecord.read)

def render (i : Image) : String := i.toJson.render

def parse? (text : String) : Option Image := record.read.ofText? text

end Image

/-- The text of a ledger. -/
def render (l : Ledger) : String := l.image.render

/-- The ledger of a text. -/
def parse? (text : String) : Option Ledger := (Image.parse? text).map empty.withImage

/-! ## Laws -/

/-- An id is read back from its octets. -/
theorem idOfOctets_octetsOfId (id : UInt64) : idOfOctets (octetsOfId id) = id := by
  rw [← UInt64.toNat_inj]
  have h := id.toNat_lt
  simp only [idOfOctets, octetsOfId, List.map_cons, List.map_nil, List.length_cons,
    List.length_nil, Nat.reduceAdd, Nat.sub_self, List.drop_zero, List.foldl_cons, List.foldl_nil,
    UInt64.toNat_add, UInt64.toNat_mul, UInt8.toNat_toUInt64, UInt8.toNat_ofNat',
    Nat.shiftRight_eq_div_pow]
  generalize id.toNat = x at h ⊢
  simp
  omega

/-- A row that cannot be read stays one. -/
theorem ofText_text : Entry.ofText Entry.unreadable.text = .unreadable := by
  cbv

end VpnNode.Ledger
