import VpnNode.Proofs.Ledger.Index

/-!
# Looking rows up

On an indexed ledger every look-up succeeds, and finds the rows that are there.

Main statements:

* `Indexed.find_byId`, `Indexed.find_byPeerKey`: the filters on one field find the one row
  that they fix.
* `Indexed.find_all_eq`, `Indexed.sessions_ascending`: the filter without fields finds the
  rows by ascending id.
* `Indexed.deleteOne_byId`: a removal by id takes the row under the id.
-/

namespace VpnNode.Ledger

/-- The row under an id, if there is one and it can be read. -/
def row? (l : Ledger) (id : UInt64) : Option Session :=
  match l.rows[id]? with
  | some (.row s) => some s
  | _ => none

theorem row?_eq_some_iff {l : Ledger} {id : UInt64} {s : Session} :
    l.row? id = some s ↔ l.Holds id s := by
  unfold row? Holds
  split
  · rename_i t ht
    rw [ht]
    simp
  · rename_i hno
    constructor
    · intro h; cases h
    · intro h; exact absurd h (hno s)

theorem row?_eq_none_iff {l : Ledger} {id : UInt64} : l.row? id = none ↔ ∀ s, ¬ l.Holds id s := by
  simp only [← row?_eq_some_iff, Option.eq_none_iff_forall_ne_some, ne_eq]

/-- The row with a peer key, by the index. -/
def rowOf? (l : Ledger) (key : String) : Option Session := l.keys[key]?.bind l.row?

/-- The row of an entry, if it can be read. -/
def Entry.session? : Entry → Option Session
  | .row s => some s
  | .unreadable => none

/-- The rows that can be read, by ascending id. -/
def sessions (l : Ledger) : List Session := l.rows.toList.filterMap fun e => e.2.session?

/-- Entries that are rows under their own ids are read as these rows, in order. -/
theorem readable_eq_ok (es : List (UInt64 × Entry))
    (h : ∀ e ∈ es, ∃ s : Session, e = (s.id, .row s)) :
    ∃ ss, readable es = .ok ss ∧ es = ss.map fun s => (s.id, .row s) := by
  induction es with
  | nil => exact ⟨[], rfl, rfl⟩
  | cons e r ih =>
    obtain ⟨ss, hss, hr⟩ := ih fun e he => h e (List.mem_cons_of_mem _ he)
    obtain ⟨s, rfl⟩ := h e List.mem_cons_self
    refine ⟨s :: ss, ?_, ?_⟩
    · rw [readable, hss]
      rfl
    · rw [List.map_cons, ← hr]

namespace Indexed

variable {l : Ledger}

theorem get_eq (h : l.Indexed) (id : UInt64) : l.get id = .ok (l.row? id) := by
  unfold get row?
  cases he : l.rows[id]? with
  | none => rfl
  | some e =>
    obtain ⟨s, rfl, -⟩ := h.holds_of_getElem? he
    rfl

/-- The row under an id is found by it. -/
theorem find_byId (h : l.Indexed) (id : UInt64) :
    l.find (.byId id) = .ok (l.row? id).toList := by
  show (l.get id >>= fun s => pure (s.toList.filter (Filter.byId id).matchesRow)) = _
  rw [h.get_eq]
  cases hs : l.row? id with
  | none => rfl
  | some s =>
    have hid := h.id_eq (row?_eq_some_iff.1 hs)
    have hm : (Filter.byId id).matchesRow s := Filter.byId_matches_iff.2 hid
    simp [bind, Except.bind, pure, Except.pure, hm]

/-- The row with a peer key is found by it. -/
theorem find_byPeerKey (h : l.Indexed) (key : String) :
    l.find (.byPeerKey key) = .ok (l.rowOf? key).toList := by
  have hindexed : l.indexedId (.byPeerKey key) = some l.keys[key]? := rfl
  unfold find rowOf?
  rw [hindexed]
  cases hk : l.keys[key]? with
  | none => rfl
  | some id =>
    obtain ⟨s, hs, hsk⟩ := h.key_iff.1 hk
    have hm : (Filter.byPeerKey key).matchesRow s := Filter.byPeerKey_matches_iff.2 hsk
    dsimp only
    rw [h.get_eq, Option.bind_some, row?_eq_some_iff.2 hs]
    simp [bind, Except.bind, pure, Except.pure, hm]

theorem rowOf?_eq_none_iff (h : l.Indexed) {key : String} :
    l.rowOf? key = none ↔ ∀ id s, l.Holds id s → s.peerKey ≠ key := by
  rw [← h.keys_getElem?_eq_none_iff, rowOf?]
  cases hk : l.keys[key]? with
  | none => simp
  | some id =>
    obtain ⟨s, hs, -⟩ := h.key_iff.1 hk
    rw [Option.bind_some, row?_eq_some_iff.2 hs]
    simp

/-- The entries of the ledger are its rows, under their ids. -/
theorem toList_eq (h : l.Indexed) : l.rows.toList = l.sessions.map fun s => (s.id, .row s) := by
  have hrow : ∀ e ∈ l.rows.toList, ∃ s : Session, e = (s.id, .row s) := by
    rintro ⟨id, e⟩ he
    obtain ⟨s, rfl, hs⟩ := h.holds_of_getElem? (Std.ExtTreeMap.mem_toList_iff_getElem?_eq_some.1 he)
    exact ⟨s, by rw [h.id_eq hs]⟩
  obtain ⟨ss, -, hss⟩ := readable_eq_ok l.rows.toList hrow
  have hsessions : l.sessions = ss := by
    rw [sessions, hss, List.filterMap_map]
    exact List.filterMap_some
  rw [hsessions, hss]

theorem mem_sessions (h : l.Indexed) {s : Session} : s ∈ l.sessions ↔ l.Holds s.id s := by
  rw [Holds, ← Std.ExtTreeMap.mem_toList_iff_getElem?_eq_some, h.toList_eq, List.mem_map]
  constructor
  · exact fun hs => ⟨s, hs, rfl⟩
  · rintro ⟨t, ht, heq⟩
    obtain ⟨-, heq⟩ := Prod.mk.inj heq
    exact Entry.row.inj heq ▸ ht

theorem map_id_sessions (h : l.Indexed) : l.sessions.map (·.id) = l.rows.keys := by
  rw [← Std.ExtTreeMap.map_fst_toList_eq_keys, h.toList_eq, List.map_map]
  rfl

theorem sessions_ascending (h : l.Indexed) : (l.sessions.map (·.id)).Pairwise (· < ·) := by
  rw [h.map_id_sessions]
  exact Std.ExtTreeMap.ordered_keys.imp fun hlt => Std.compare_eq_lt.1 hlt

/-- The filter without fields finds the rows by ascending id. -/
theorem find_all_eq (h : l.Indexed) : l.find .all = .ok l.sessions := by
  obtain ⟨ss, hread, hss⟩ := readable_eq_ok (l.sessions.map fun s => (s.id, .row s))
    (List.forall_mem_map.2 fun s _ => ⟨s, rfl⟩)
  have hinj : Function.Injective fun s : Session => (s.id, Entry.row s) := fun s t hst =>
    Entry.row.inj (Prod.mk.inj hst).2
  rw [find_all, scan, h.toList_eq, hread, List.map_injective_iff.2 hinj hss]

/-- Every row is found once by the filter without fields. -/
theorem find_every (h : l.Indexed) :
    ∃ ss, l.find .all = .ok ss ∧ (ss.map (·.id)).Nodup ∧ ∀ s, s ∈ ss ↔ l.Holds s.id s := by
  refine ⟨l.sessions, h.find_all_eq, ?_, fun s => h.mem_sessions⟩
  rw [h.map_id_sessions]
  exact Std.ExtTreeMap.nodup_keys

/-- A removal by id takes the row under the id, and the entry of its peer key. -/
theorem deleteOne_byId (h : l.Indexed) (id : UInt64) :
    l.deleteOne (.byId id) =
      match l.row? id with
      | none => .ok (none, l)
      | some s => .ok (some s, ⟨l.rows.erase id, l.keys.erase s.peerKey⟩) := by
  unfold deleteOne matchingIds
  rw [h.find_byId]
  cases hs : l.row? id with
  | none => rfl
  | some s =>
    have hid := h.id_eq (row?_eq_some_iff.1 hs)
    simp only [bind, Except.bind, pure, Except.pure, Option.toList_some, List.map_cons,
      List.map_nil, List.head?_cons, hid]
    simp only [Ledger.deleteIds, h.get_eq, hs, bind, Except.bind, pure, Except.pure,
      List.getLast?_singleton]

end Indexed

end VpnNode.Ledger
