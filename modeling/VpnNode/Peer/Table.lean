import Std.Data.ExtTreeMap
import VpnNode.Peer.Identity
import VpnNode.Peer.Statistic
import VpnNode.Text.Utf8

/-!
# A backend in memory

A table of connected peers with their traffic counters. Like other backends it is
strict: adding a peer that is there and removing one that is not are errors. It
counts the removals.

Main statements:

* `contains_add`: what a successful addition does to the keys of the table.
* `contains_remove`: what a successful removal does to them.
-/

namespace VpnNode.Peer

/-- The traffic counters of a connected peer. -/
structure Usage where
  download : UInt64
  upload : UInt64
  deriving DecidableEq, Repr

/-- The peers that are connected to a backend in memory. -/
structure Table where
  service : Service
  capacity : Nat
  peers : Std.ExtTreeMap String Usage
  removals : Nat

namespace Table

/-- The capacity of a backend that sets no limit of its own. -/
def unlimited : Nat := UInt64.size - 1

/-- A backend without peers. -/
def empty (service : Service) (capacity : Nat) : Table := ⟨service, capacity, ∅, 0⟩

/-- Is a peer with this key connected? -/
def contains (t : Table) (key : String) : Bool := t.peers.contains key

/-- Refuses an identity of another kind of service. -/
def checkService (t : Table) (i : Identity) : Except Error Unit :=
  if i.service = t.service then .ok ()
  else .error (.backend s!"{t.service.name} backend received {i.service.name} request")

/-- Connects a peer; gives the connection data for the client, which are the octets
    of the key. -/
def add (t : Table) (i : Identity) : Except Error (List UInt8 × Table) := do
  t.checkService i
  if t.contains i.key then throw (.alreadyExists i.key)
  if t.capacity ≤ t.peers.size then throw (.capacity t.capacity)
  return (Utf8.octets i.key, { t with peers := t.peers.insert i.key ⟨0, 0⟩ })

/-- Is a peer connected? -/
def has (t : Table) (i : Identity) : Except Error Bool := do
  t.checkService i
  return t.contains i.key

/-- Disconnects a peer. -/
def remove (t : Table) (i : Identity) : Except Error Table := do
  t.checkService i
  if t.contains i.key then
    return { t with peers := t.peers.erase i.key, removals := t.removals + 1 }
  else throw (.notFound i.key)

/-- The counters of all peers, by key. -/
def statistics (t : Table) : List Statistic :=
  t.peers.toList.map fun (key, u) => ⟨key, u.download, u.upload⟩

def count (t : Table) : Nat := t.peers.size

/-- The keys of all peers, in order. -/
def keys (t : Table) : List String := t.peers.keys

/-- Overwrites the counters of a connected peer; nothing happens where there is none. -/
def setUsage (t : Table) (key : String) (usage : Usage) : Table :=
  if t.contains key then { t with peers := t.peers.insert key usage } else t

/-! ## Keys of the table -/

theorem compare_beq_eq (a b : String) : (compare a b == .eq) = (b == a) := by
  rw [Bool.eq_iff_iff, beq_iff_eq, beq_iff_eq, Std.compare_eq_iff_eq]
  exact eq_comm

/-- A successful addition connects one new peer. -/
theorem contains_add {t u : Table} {i : Identity} {data : List UInt8} (h : t.add i = .ok (data, u)) :
    t.contains i.key = false ∧ ∀ k, u.contains k = (k == i.key || t.contains k) := by
  unfold add at h
  cases hs : t.checkService i with
  | error e => simp [hs, bind, Except.bind] at h
  | ok v =>
    by_cases hc : t.contains i.key
    · simp [hs, hc, bind, Except.bind, throw, throwThe, MonadExceptOf.throw] at h
    · by_cases hl : t.capacity ≤ t.peers.size
      · simp [hs, hc, hl, bind, Except.bind, throw, throwThe, MonadExceptOf.throw] at h
      · simp [hs, hc, hl, bind, Except.bind, pure] at h
        obtain ⟨-, rfl⟩ := h
        refine ⟨by simpa using hc, fun k => ?_⟩
        simp only [contains, Std.ExtTreeMap.contains_insert, compare_beq_eq]

/-- A successful removal disconnects one peer. -/
theorem contains_remove {t u : Table} {i : Identity} (h : t.remove i = .ok u) :
    t.contains i.key ∧ u.removals = t.removals + 1 ∧
      ∀ k, u.contains k = (k != i.key && t.contains k) := by
  unfold remove at h
  cases hs : t.checkService i with
  | error e => simp [hs, bind, Except.bind] at h
  | ok v =>
    by_cases hc : t.contains i.key
    · simp [hs, hc, bind, Except.bind, pure, Except.pure] at h
      subst h
      refine ⟨hc, rfl, fun k => ?_⟩
      simp only [contains, Std.ExtTreeMap.contains_erase, compare_beq_eq, bne]
    · simp [hs, hc, bind, Except.bind, throw, throwThe, MonadExceptOf.throw] at h

end VpnNode.Peer.Table
