import VpnNode.Session.Basic

/-!
# Which rows, and what to write into them

A filter fixes some fields of a row and leaves the others open. An update reports
usage, replaces the client's signature, or both, as of a point in time.

Main statements:

* `Filter.all_matches`: a filter without fields matches every row.
* `Filter.byPeerKey_matches_iff`, `Filter.byId_matches_iff`: what the filters on one
  field match.
-/

namespace VpnNode.Ledger

/-- The fields that a row must have; a field that is left open matches everything. -/
structure Filter where
  id : Option UInt64
  peerKey : Option String
  accountAddress : Option String
  service : Option Service
  deriving DecidableEq, Repr

namespace Filter

/-- The filter that matches every row. -/
def all : Filter := ⟨none, none, none, none⟩

def byId (id : UInt64) : Filter := { all with id := some id }

def byPeerKey (key : String) : Filter := { all with peerKey := some key }

/-- Is a field left open, or does it have this value? -/
def admits [DecidableEq α] (wanted : Option α) (value : α) : Bool :=
  match wanted with
  | none => true
  | some w => value == w

def matchesRow (f : Filter) (s : Session) : Bool :=
  admits f.id s.id && admits f.peerKey s.peerKey && admits f.accountAddress s.accountAddress &&
    admits f.service s.service

@[simp] theorem all_matches (s : Session) : all.matchesRow s = true := rfl

@[simp] theorem byId_matches_iff {id : UInt64} {s : Session} :
    (byId id).matchesRow s ↔ s.id = id := by
  simp [byId, all, matchesRow, admits]

@[simp] theorem byPeerKey_matches_iff {key : String} {s : Session} :
    (byPeerKey key).matchesRow s ↔ s.peerKey = key := by
  simp [byPeerKey, all, matchesRow, admits]

end Filter

/-- What to write into rows. -/
structure Update where
  download : Option Nat
  upload : Option Nat
  /-- Base64. -/
  signature : Option String
  now : Time
  deriving DecidableEq

namespace Update

/-- A report of usage. -/
def usage (download upload : Nat) (now : Time) : Update := ⟨some download, some upload, none, now⟩

/-- Checks an update before it is applied. -/
def validate (u : Update) : Except Base64.Fault Unit :=
  match u.signature with
  | none => .ok ()
  | some text => (Base64.decode text).map fun _ => ()

/-- Writes an update into a row. -/
def apply (u : Update) (s : Session) : Except Session.Corruption Session :=
  match s.applyUsage u.download u.upload u.now with
  | .error i => .error i.corruption
  | .ok s => .ok { s with signature := u.signature.getD s.signature, updatedAt := u.now }

end VpnNode.Ledger.Update
