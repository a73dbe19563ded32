import VpnNode.Proofs.Ledger.History
import VpnNode.Proofs.Ledger.Lookup

/-!
# All rows at once

What single writes do to the whole of the rows, and properties that every row keeps.

Main statements:

* `sessions_revise`: rows that are written anew stay in order.
* `Indexed.updateOne_byPeerKey`: an update by peer key revises one row and no other.
* `Indexed.deleteOne_eq_discard`: a removal by id discards one row and no other.
* `Every.insert`, `Every.perform`: what every row has, it has after a write.
-/

namespace VpnNode.Ledger

variable {l : Ledger} {s t : Session} {id : UInt64}

/-! ## Revisions -/

/-- Writes every row anew; the index stays. -/
def revise (l : Ledger) (f : Session → Session) : Ledger where
  rows := l.rows.map fun _ e => match e with
    | .row s => .row (f s)
    | .unreadable => .unreadable
  keys := l.keys

theorem holds_revise {f : Session → Session} :
    (l.revise f).Holds id t ↔ ∃ s, l.Holds id s ∧ f s = t := by
  unfold Holds revise
  rw [Std.ExtTreeMap.getElem?_map]
  cases l.rows[id]? with
  | none => simp
  | some e => cases e <;> simp

theorem row?_revise (l : Ledger) (g : Session → Session) (id : UInt64) :
    (l.revise g).row? id = (l.row? id).map g := by
  unfold row? revise
  rw [Std.ExtTreeMap.getElem?_map]
  obtain _ | (_ | _) := l.rows[id]? <;> rfl

theorem rowOf?_revise (l : Ledger) (g : Session → Session) (key : String) :
    (l.revise g).rowOf? key = (l.rowOf? key).map g := by
  show l.keys[key]?.bind (l.revise g).row? = (l.keys[key]?.bind l.row?).map g
  cases l.keys[key]? with
  | none => rfl
  | some id => exact row?_revise l g id

/-- A revision leaves a row under the ids that had one. -/
theorem exists_holds_revise {f : Session → Session} :
    (∃ t, (l.revise f).Holds id t) ↔ ∃ s, l.Holds id s := by
  constructor
  · rintro ⟨t, ht⟩
    obtain ⟨s, hs, -⟩ := holds_revise.1 ht
    exact ⟨s, hs⟩
  · rintro ⟨s, hs⟩
    exact ⟨f s, holds_revise.2 ⟨s, hs, rfl⟩⟩

theorem sessions_revise (l : Ledger) (f : Session → Session) :
    (l.revise f).sessions = l.sessions.map f := by
  unfold sessions revise
  rw [Std.ExtTreeMap.toList_map, List.filterMap_map, List.map_filterMap]
  congr 1
  funext e
  obtain ⟨id, e⟩ := e
  cases e <;> rfl

/-- Two revisions that write the same into every row are the same. -/
theorem revise_congr {f g : Session → Session} (h : ∀ id s, l.Holds id s → f s = g s) :
    l.revise f = l.revise g := by
  unfold revise
  congr 1
  apply Std.ExtTreeMap.ext_getElem?
  intro id
  rw [Std.ExtTreeMap.getElem?_map, Std.ExtTreeMap.getElem?_map]
  cases he : l.rows[id]? with
  | none => rfl
  | some e =>
    cases e with
    | row s => simp [h id s he]
    | unreadable => rfl

theorem revise_self (l : Ledger) : (l.revise fun s => s) = l := by
  unfold revise
  congr 1
  apply Std.ExtTreeMap.ext_getElem?
  intro id
  rw [Std.ExtTreeMap.getElem?_map]
  cases l.rows[id]? with
  | none => rfl
  | some e => cases e <;> rfl

theorem revise_revise (l : Ledger) (f g : Session → Session) :
    (l.revise f).revise g = l.revise fun s => g (f s) := by
  unfold revise
  congr 1
  apply Std.ExtTreeMap.ext_getElem?
  intro id
  rw [Std.ExtTreeMap.getElem?_map, Std.ExtTreeMap.getElem?_map, Std.ExtTreeMap.getElem?_map]
  cases l.rows[id]? with
  | none => rfl
  | some e => cases e <;> rfl

/-- Rows keep their ids and peer keys when they are revised. -/
theorem Indexed.revise (h : l.Indexed) {f : Session → Session} (hid : ∀ s, (f s).id = s.id)
    (hkey : ∀ s, (f s).peerKey = s.peerKey) : (l.revise f).Indexed where
  readable id := by
    have hrow := h.readable id
    unfold Ledger.revise
    rw [Std.ExtTreeMap.getElem?_map]
    cases he : l.rows[id]? with
    | none => simp
    | some e =>
      cases e with
      | row s => simp
      | unreadable => exact absurd he hrow
  id_eq ht := by
    obtain ⟨s, hs, rfl⟩ := holds_revise.1 ht
    rw [hid, h.id_eq hs]
  key_iff {key id} := by
    rw [show (l.revise f).keys = l.keys from rfl, h.key_iff]
    constructor
    · rintro ⟨s, hs, rfl⟩
      exact ⟨f s, holds_revise.2 ⟨s, hs, rfl⟩, hkey s⟩
    · rintro ⟨t, ht, rfl⟩
      obtain ⟨s, hs, rfl⟩ := holds_revise.1 ht
      exact ⟨s, hs, (hkey s).symm⟩

/-- To write one row anew is to revise the rows with its peer key. -/
theorem Indexed.rewrite_eq_revise (h : l.Indexed) (hs : l.Holds id s) (f : Session → Session) :
    ({ l with rows := l.rows.insert id (.row (f s)) } : Ledger) =
      l.revise fun t => if t.peerKey = s.peerKey then f t else t := by
  unfold Ledger.revise
  congr 1
  apply Std.ExtTreeMap.ext_getElem?
  intro id'
  rw [Std.ExtTreeMap.getElem?_insert, Std.ExtTreeMap.getElem?_map]
  simp only [Std.compare_eq_iff_eq]
  by_cases hid : id = id'
  · subst hid
    rw [if_pos rfl, show l.rows[id]? = some (.row s) from hs]
    simp
  · rw [if_neg hid]
    cases he : l.rows[id']? with
    | none => rfl
    | some e =>
      obtain ⟨t, rfl, ht⟩ := h.holds_of_getElem? he
      have hne : t.peerKey ≠ s.peerKey := fun hkey => hid (h.holds_of_key hs ht hkey.symm).1
      simp [hne]

/-! ## One row by its peer key -/

theorem Indexed.rowOf?_eq_some_iff (h : l.Indexed) {key : String} :
    l.rowOf? key = some s ↔ l.Holds s.id s ∧ s.peerKey = key := by
  unfold rowOf?
  rw [Option.bind_eq_some_iff]
  constructor
  · rintro ⟨id, hid, hs⟩
    obtain ⟨t, ht, hkey⟩ := h.key_iff.1 hid
    obtain rfl := ht.unique (row?_eq_some_iff.1 hs)
    rw [h.id_eq ht]
    exact ⟨ht, hkey⟩
  · rintro ⟨hs, hkey⟩
    exact ⟨s.id, h.key_iff.2 ⟨s, hs, hkey⟩, row?_eq_some_iff.2 hs⟩

/-- An update by peer key writes the row with that key, if there is one. -/
theorem Indexed.updateOne_byPeerKey (h : l.Indexed) (key : String) {u : Update}
    (hu : u.validate = .ok ()) {f : Session → Session}
    (happly : ∀ s, l.Holds s.id s → u.apply s = .ok (f s)) :
    l.updateOne (.byPeerKey key) u =
      .ok ((l.rowOf? key).map f, l.revise fun s => if s.peerKey = key then f s else s) := by
  have hids : l.matchingIds (.byPeerKey key) = .ok ((l.rowOf? key).toList.map (·.id)) := by
    unfold matchingIds
    rw [h.find_byPeerKey]
    rfl
  unfold updateOne
  rw [hu, hids]
  cases hrow : l.rowOf? key with
  | none =>
    have hnone := h.rowOf?_eq_none_iff.1 hrow
    have hsame : (l.revise fun s => if s.peerKey = key then f s else s) = l := by
      refine Eq.trans ?_ (revise_self l)
      exact revise_congr fun id s hs => if_neg (hnone id s hs)
    rw [hsame]
    rfl
  | some s =>
    obtain ⟨hs, rfl⟩ := h.rowOf?_eq_some_iff.1 hrow
    have hmatch : (Filter.byPeerKey s.peerKey).matchesRow s = true :=
      Filter.byPeerKey_matches_iff.2 rfl
    have hupdate : l.updateIds (.byPeerKey s.peerKey) u [s.id] =
        .ok ([f s], { l with rows := l.rows.insert s.id (.row (f s)) }) := by
      unfold Ledger.updateIds
      rw [h.get_eq, row?_eq_some_iff.2 hs]
      dsimp only
      rw [if_pos hmatch, happly s hs]
      rfl
    rw [h.rewrite_eq_revise hs] at hupdate
    show (Except.bind (l.updateIds (.byPeerKey s.peerKey) u [s.id]) fun x => _) = _
    rw [hupdate]
    rfl

/-! ## One row by its id -/

/-- Removes the row under an id and the entry of its peer key, if there is one. -/
def discard (l : Ledger) (id : UInt64) : Ledger :=
  match l.row? id with
  | none => l
  | some s => ⟨l.rows.erase id, l.keys.erase s.peerKey⟩

theorem Indexed.deleteOne_eq_discard (h : l.Indexed) (id : UInt64) :
    l.deleteOne (.byId id) = .ok (l.row? id, l.discard id) := by
  rw [h.deleteOne_byId, discard]
  cases l.row? id <;> rfl

theorem Indexed.discard (h : l.Indexed) (id : UInt64) : (l.discard id).Indexed := by
  unfold Ledger.discard
  split
  · exact h
  · rename_i s hs
    exact h.remove (row?_eq_some_iff.1 hs)

/-- Exactly the row under the id is gone. -/
theorem holds_discard {id' : UInt64} :
    (l.discard id).Holds id' s ↔ l.Holds id' s ∧ id' ≠ id := by
  unfold discard
  split
  · rename_i hnone
    have hno := row?_eq_none_iff.1 hnone
    exact ⟨fun hs => ⟨hs, fun hid => hno s (hid ▸ hs)⟩, And.left⟩
  · unfold Holds
    rw [Std.ExtTreeMap.getElem?_erase]
    simp only [Std.compare_eq_iff_eq]
    split
    · rename_i hid
      exact ⟨nofun, fun h => absurd hid.symm h.2⟩
    · rename_i hid
      exact ⟨fun hs => ⟨hs, fun h => hid h.symm⟩, And.left⟩

/-! ## What every row has -/

/-- Every row has a property. -/
def Every (P : Session → Prop) (l : Ledger) : Prop := ∀ id s, l.Holds id s → P s

namespace Every

variable {P : Session → Prop} {l' : Ledger}

theorem empty : Every P Ledger.empty := by
  intro id s hs
  simp [Ledger.empty, Holds] at hs

/-- A row with the property is stored beside others. -/
theorem insert (h : Every P l) (hs : P s) (hi : l.insert s = .ok l') : Every P l' := by
  obtain ⟨-, -, -, rfl⟩ := insert_eq_ok_iff.1 hi
  intro id t ht
  simp only [Holds, Std.ExtTreeMap.getElem?_insert, Std.compare_eq_iff_eq] at ht
  split at ht
  · cases ht
    exact hs
  · exact h id t ht

/-- A row is written anew. -/
theorem rewrite (h : Every P l) (hs : P s) :
    Every P { l with rows := l.rows.insert id (.row s) } := by
  intro id' t ht
  simp only [Holds, Std.ExtTreeMap.getElem?_insert, Std.compare_eq_iff_eq] at ht
  split at ht
  · cases ht
    exact hs
  · exact h id' t ht

theorem updateIds (h : Every P l) {f : Filter} {u : Update}
    (hP : ∀ s t, P s → u.apply s = .ok t → P t) {ids : List UInt64} {written : List Session}
    (hu : l.updateIds f u ids = .ok (written, l')) : Every P l' := by
  induction ids generalizing l written with
  | nil =>
    cases hu
    exact h
  | cons id ids ih =>
    unfold Ledger.updateIds get at hu
    split at hu
    · cases hu
    · exact ih h hu
    · rename_i s hs
      split at hu
      · split at hu
        · cases hu
        · rename_i t ha
          split at hu
          · cases hu
          · rename_i hr
            cases hu
            have hholds : l.Holds id s := by
              revert hs
              split <;> simp_all [Holds]
            exact ih (h.rewrite (hP s t (h id s hholds) ha)) hr
      · exact ih h hu

theorem deleteIds (h : Every P l) {ids : List UInt64} {removed : List Session}
    (hd : l.deleteIds ids = .ok (removed, l')) : Every P l' :=
  fun id s hs => h id s (holds_of_deleteIds hd hs)

end Every

/-- Does an operation add rows? -/
def Operation.adds : Operation → Bool
  | .insert _ | .insertMany _ => true
  | _ => false

/-- What every row has and updates keep, every row has after an operation that adds none. -/
theorem Every.perform {P : Session → Prop} (h : Every P l)
    (hP : ∀ (u : Update) s t, P s → u.apply s = .ok t → P t) {op : Operation}
    (hop : op.adds = false) : Every P (l.perform op) := by
  cases op with
  | insert s => exact Bool.noConfusion hop
  | insertMany ss => exact Bool.noConfusion hop
  | updateOne f u =>
    rcases l.settle_map_cases (l.updateOne f u) with hsame | ⟨x, hx⟩
    · exact (congrArg (Every P) hsame).mpr h
    · obtain ⟨ids, written, hu⟩ := updateOne_eq_ok hx
      exact h.updateIds (hP u) hu
  | updateMany f u =>
    rcases l.settle_map_cases (l.updateMany f u) with hsame | ⟨x, hx⟩
    · exact (congrArg (Every P) hsame).mpr h
    · obtain ⟨ids, written, hu⟩ := updateMany_eq_ok hx
      exact h.updateIds (hP u) hu
  | deleteOne f =>
    rcases l.settle_map_cases (l.deleteOne f) with hsame | ⟨x, hx⟩
    · exact (congrArg (Every P) hsame).mpr h
    · obtain ⟨ids, removed, hd⟩ := deleteOne_eq_ok hx
      exact h.deleteIds hd
  | deleteMany f =>
    rcases l.settle_map_cases (l.deleteMany f) with hsame | ⟨x, hx⟩
    · exact (congrArg (Every P) hsame).mpr h
    · obtain ⟨ids, removed, hd⟩ := deleteMany_eq_ok hx
      exact h.deleteIds hd

end VpnNode.Ledger
