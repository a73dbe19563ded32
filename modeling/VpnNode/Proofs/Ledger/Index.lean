import Mathlib.Data.List.Perm.Subperm
import VpnNode.Ledger.Basic
import VpnNode.Proofs.Ledger.Update
import VpnNode.Proofs.Result

/-!
# The rows and their index

A ledger keeps its rows by id and an index from peer keys to ids. Transactions write
them separately: an update writes a row and leaves the index alone, an insertion and a
removal write both. `Indexed` says that the two are inverse to each other. An empty
ledger is indexed, and each transaction keeps it so.

Main statements:

* `Indexed.add`, `Indexed.rewrite`, `Indexed.remove`: the three steps of which
  transactions consist keep the invariant.
* `Indexed.insertMany`, `Indexed.updateIds`, `Indexed.deleteIds`: so do transactions.
* `Indexed.count_eq`: there are as many rows as index entries.
* `Indexed.ext`: ledgers with the same rows are equal.
* `insert_isOk_iff`: a session is inserted exactly if it is valid and neither its id nor
  its peer key stands in a row.
-/

namespace VpnNode.Ledger

/-! ## Rows and index -/

/-- The row `s` stands under an id. -/
def Holds (l : Ledger) (id : UInt64) (s : Session) : Prop := l.rows[id]? = some (.row s)

/-- The peer key of an entry; there is none in what cannot be read. -/
def Entry.peerKey : Entry → String
  | .row s => s.peerKey
  | .unreadable => ""

/-- Rows and index are inverse to each other: every row can be read and stands under its
    own id, and the index maps exactly the peer keys of the rows to their ids. -/
structure Indexed (l : Ledger) : Prop where
  readable : ∀ id : UInt64, l.rows[id]? ≠ some .unreadable
  id_eq : ∀ {id s}, l.Holds id s → s.id = id
  key_iff : ∀ {key : String} {id : UInt64},
    l.keys[key]? = some id ↔ ∃ s, l.Holds id s ∧ s.peerKey = key

theorem Holds.unique {l : Ledger} {id : UInt64} {s t : Session} (hs : l.Holds id s)
    (ht : l.Holds id t) : s = t := by
  unfold Holds at hs ht
  rw [hs] at ht
  injection ht with ht
  injection ht

namespace Indexed

variable {l : Ledger}

/-- What stands under an id is a row. -/
theorem holds_of_getElem? (h : l.Indexed) {id : UInt64} {e : Entry} (he : l.rows[id]? = some e) :
    ∃ s, e = .row s ∧ l.Holds id s := by
  cases e with
  | row s => exact ⟨s, rfl, he⟩
  | unreadable => exact absurd he (h.readable id)

/-- Two rows with one peer key are one row. -/
theorem holds_of_key (h : l.Indexed) {id id' : UInt64} {s s' : Session} (hs : l.Holds id s)
    (hs' : l.Holds id' s') (hk : s.peerKey = s'.peerKey) : id = id' ∧ s = s' := by
  have h1 := h.key_iff.2 ⟨s, hs, rfl⟩
  have h2 := h.key_iff.2 ⟨s', hs', hk.symm⟩
  rw [h1] at h2
  injection h2 with hid
  subst hid
  exact ⟨rfl, hs.unique hs'⟩

theorem empty : Ledger.empty.Indexed where
  readable id := by simp [Ledger.empty]
  id_eq hs := by simp [Ledger.empty, Holds] at hs
  key_iff := by simp [Ledger.empty, Holds]

/-! ## Steps of a transaction -/

/-- A row with a new id and a new peer key is added to both. -/
theorem add (h : l.Indexed) {s : Session} (hid : l.rows[s.id]? = none)
    (hkey : l.keys[s.peerKey]? = none) :
    Indexed ⟨l.rows.insert s.id (.row s), l.keys.insert s.peerKey s.id⟩ where
  readable id := by
    simp only [Std.ExtTreeMap.getElem?_insert]
    split
    · simp
    · exact h.readable id
  id_eq {id t} ht := by
    simp only [Holds, Std.ExtTreeMap.getElem?_insert, Std.compare_eq_iff_eq] at ht
    split at ht
    · injection ht with ht; injection ht with ht; subst ht; assumption
    · exact h.id_eq ht
  key_iff {key id} := by
    simp only [Holds, Std.ExtTreeMap.getElem?_insert, Std.compare_eq_iff_eq]
    by_cases hk : s.peerKey = key
    · -- The new key: it belongs to the new row and to no other.
      subst hk
      simp only [if_true, Option.some.injEq]
      constructor
      · rintro rfl; exact ⟨s, by simp⟩
      · rintro ⟨t, ht, htk⟩
        split at ht
        · assumption
        · have := h.key_iff.2 ⟨t, ht, htk⟩
          rw [hkey] at this; cases this
    · simp only [hk, if_false]
      rw [h.key_iff]
      constructor
      · rintro ⟨t, ht, htk⟩
        have hne : s.id ≠ id := by rintro rfl; rw [Holds, hid] at ht; cases ht
        exact ⟨t, by simp only [hne, if_false]; exact ht, htk⟩
      · rintro ⟨t, ht, htk⟩
        split at ht
        · injection ht with ht; injection ht with ht; subst ht; exact absurd htk hk
        · exact ⟨t, ht, htk⟩

/-- A row is written anew under its id, with the same peer key; the index stays. -/
theorem rewrite (h : l.Indexed) {id : UInt64} {s t : Session} (hs : l.Holds id s)
    (hid : t.id = s.id) (hkey : t.peerKey = s.peerKey) :
    Indexed { l with rows := l.rows.insert id (.row t) } where
  readable id' := by
    simp only [Std.ExtTreeMap.getElem?_insert]
    split
    · simp
    · exact h.readable id'
  id_eq {id' u} hu := by
    simp only [Holds, Std.ExtTreeMap.getElem?_insert, Std.compare_eq_iff_eq] at hu
    split at hu
    · rename_i he
      injection hu with hu; injection hu with hu
      subst hu he
      exact hid.trans (h.id_eq hs)
    · exact h.id_eq hu
  key_iff {key id'} := by
    rw [h.key_iff]
    simp only [Holds, Std.ExtTreeMap.getElem?_insert, Std.compare_eq_iff_eq]
    by_cases he : id = id'
    · subst he
      simp only [if_true]
      constructor
      · rintro ⟨u, hu, rfl⟩; exact ⟨t, rfl, by rw [hkey, hs.unique hu]⟩
      · rintro ⟨u, hu, rfl⟩
        injection hu with hu; injection hu with hu
        subst hu
        exact ⟨s, hs, hkey.symm⟩
    · simp only [he, if_false]

/-- A row is removed together with the entry of its peer key. -/
theorem remove (h : l.Indexed) {id : UInt64} {s : Session} (hs : l.Holds id s) :
    Indexed ⟨l.rows.erase id, l.keys.erase s.peerKey⟩ where
  readable id' := by
    simp only [Std.ExtTreeMap.getElem?_erase]
    split
    · simp
    · exact h.readable id'
  id_eq {id' u} hu := by
    simp only [Holds, Std.ExtTreeMap.getElem?_erase] at hu
    split at hu
    · cases hu
    · exact h.id_eq hu
  key_iff {key id'} := by
    simp only [Holds, Std.ExtTreeMap.getElem?_erase, Std.compare_eq_iff_eq]
    by_cases hk : s.peerKey = key
    · -- The freed key: its only row was the one under `id`.
      simp only [hk, if_true, reduceCtorEq, false_iff, not_exists, not_and]
      intro u hu huk
      split at hu
      · cases hu
      · rename_i hne
        exact hne (h.holds_of_key hs hu (hk.trans huk.symm)).1
    · simp only [hk, if_false]
      rw [h.key_iff]
      constructor
      · rintro ⟨u, hu, huk⟩
        have hne : id ≠ id' := by rintro rfl; rw [hs.unique hu] at hk; exact hk huk
        exact ⟨u, by simp only [hne, if_false]; exact hu, huk⟩
      · rintro ⟨u, hu, huk⟩
        split at hu
        · cases hu
        · exact ⟨u, hu, huk⟩

end Indexed

/-! ## Transactions -/

theorem insertRow_eq_ok_iff {l l' : Ledger} {s : Session} :
    l.insertRow s = .ok l' ↔ l.rows[s.id]? = none ∧ l.keys[s.peerKey]? = none ∧
      l' = ⟨l.rows.insert s.id (.row s), l.keys.insert s.peerKey s.id⟩ := by
  unfold insertRow
  simp only [Std.ExtTreeMap.contains_eq_isSome_getElem?]
  cases hid : l.rows[s.id]? with
  | some e => simp
  | none =>
    cases hkey : l.keys[s.peerKey]? with
    | some id => simp
    | none => simp [eq_comm]

theorem forM_validate_eq_ok_iff {ss : List Session} :
    (ss.forM fun s => s.validate.mapError Error.invalid) = .ok () ↔
      ∀ s ∈ ss, s.validate = .ok () := by
  induction ss with
  | nil => simp [pure, Except.pure]
  | cons s r ih =>
    simp only [List.forM_eq_forM] at ih ⊢
    rw [List.forM_cons, bind_eq_ok_iff, List.forall_mem_cons, ← ih]
    constructor
    · rintro ⟨⟨⟩, hs, hr⟩; exact ⟨mapError_eq_ok_iff.1 hs, hr⟩
    · rintro ⟨hs, hr⟩; exact ⟨(), mapError_eq_ok_iff.2 hs, hr⟩

theorem insertMany_eq_ok_iff {l l' : Ledger} {ss : List Session} :
    l.insertMany ss = .ok l' ↔
      (∀ s ∈ ss, s.validate = .ok ()) ∧ ss.foldlM insertRow l = .ok l' := by
  unfold insertMany
  rw [bind_eq_ok_iff, ← forM_validate_eq_ok_iff]
  exact ⟨fun ⟨_, hv, hi⟩ => ⟨hv, hi⟩, fun ⟨hv, hi⟩ => ⟨(), hv, hi⟩⟩

namespace Indexed

variable {l l' : Ledger} {f : Filter} {u : Update}

theorem insertRows (h : l.Indexed) {ss : List Session} (hi : ss.foldlM insertRow l = .ok l') :
    l'.Indexed := by
  induction ss generalizing l with
  | nil => cases hi; exact h
  | cons s r ih =>
    rw [List.foldlM_cons] at hi
    cases hs : l.insertRow s with
    | error e => simp [hs, bind, Except.bind] at hi
    | ok l₁ =>
      simp only [hs, bind, Except.bind] at hi
      obtain ⟨hid, hkey, rfl⟩ := insertRow_eq_ok_iff.1 hs
      exact ih (h.add hid hkey) hi

theorem insertMany (h : l.Indexed) {ss : List Session} (hi : l.insertMany ss = .ok l') :
    l'.Indexed :=
  h.insertRows (insertMany_eq_ok_iff.1 hi).2

theorem updateIds (h : l.Indexed) {ids : List UInt64} {written : List Session}
    (hu : l.updateIds f u ids = .ok (written, l')) : l'.Indexed := by
  induction ids generalizing l written with
  | nil => cases hu; exact h
  | cons id r ih =>
    unfold Ledger.updateIds get at hu
    cases he : l.rows[id]? with
    | none => rw [he] at hu; exact ih h hu
    | some e =>
      obtain ⟨s, rfl, hs⟩ := h.holds_of_getElem? he
      rw [he] at hu
      dsimp only at hu
      split at hu
      · cases ha : u.apply s with
        | error c => simp [ha] at hu
        | ok t =>
          rw [ha] at hu
          dsimp only at hu
          have ht := Update.apply_fixed ha
          split at hu
          · cases hu
          · rename_i hr
            cases hu
            exact ih (h.rewrite hs ht.id ht.peerKey) hr
      · exact ih h hu

theorem deleteIds (h : l.Indexed) {ids : List UInt64} {removed : List Session}
    (hd : l.deleteIds ids = .ok (removed, l')) : l'.Indexed := by
  induction ids generalizing l removed with
  | nil => cases hd; exact h
  | cons id r ih =>
    unfold Ledger.deleteIds get at hd
    cases he : l.rows[id]? with
    | none => rw [he] at hd; exact ih h hd
    | some e =>
      obtain ⟨s, rfl, hs⟩ := h.holds_of_getElem? he
      simp only [he, bind, Except.bind] at hd
      split at hd
      · cases hd
      · rename_i hr
        cases hd
        exact ih (h.remove hs) hr

end Indexed

/-! ## What the invariant says of rows and keys -/

namespace Indexed

variable {l : Ledger}

/-- There are as many rows as entries in the index: every id has the entry of its row's
    peer key, and every indexed key stands in a row. -/
theorem count_eq (h : l.Indexed) : l.count = l.keys.size := by
  have hids : l.rows.keys ⊆ l.keys.toList.map Prod.snd := by
    intro id hid
    rw [Std.ExtTreeMap.mem_keys, Std.ExtTreeMap.mem_iff_isSome_getElem?,
      Option.isSome_iff_exists] at hid
    obtain ⟨e, he⟩ := hid
    obtain ⟨s, -, hs⟩ := h.holds_of_getElem? he
    exact List.mem_map.2 ⟨(s.peerKey, id),
      Std.ExtTreeMap.mem_toList_iff_getElem?_eq_some.2 (h.key_iff.2 ⟨s, hs, rfl⟩), rfl⟩
  have hkeys : l.keys.keys ⊆ l.rows.toList.map fun p => p.2.peerKey := by
    intro key hkey
    rw [Std.ExtTreeMap.mem_keys, Std.ExtTreeMap.mem_iff_isSome_getElem?,
      Option.isSome_iff_exists] at hkey
    obtain ⟨id, hid⟩ := hkey
    obtain ⟨s, hs, rfl⟩ := h.key_iff.1 hid
    exact List.mem_map.2 ⟨(id, .row s), Std.ExtTreeMap.mem_toList_iff_getElem?_eq_some.2 hs, rfl⟩
  have h1 := (Std.ExtTreeMap.nodup_keys.subperm hids).length_le
  have h2 := (Std.ExtTreeMap.nodup_keys.subperm hkeys).length_le
  rw [List.length_map, Std.ExtTreeMap.length_keys, Std.ExtTreeMap.length_toList] at h1 h2
  exact Nat.le_antisymm h1 h2

theorem getElem?_eq_none_iff (h : l.Indexed) {id : UInt64} :
    l.rows[id]? = none ↔ ∀ t, ¬ l.Holds id t := by
  constructor
  · intro hn t ht
    rw [Holds, hn] at ht
    cases ht
  · intro hn
    cases he : l.rows[id]? with
    | none => rfl
    | some e =>
      obtain ⟨s, -, hs⟩ := h.holds_of_getElem? he
      exact absurd hs (hn s)

theorem keys_getElem?_eq_none_iff (h : l.Indexed) {key : String} :
    l.keys[key]? = none ↔ ∀ id t, l.Holds id t → t.peerKey ≠ key := by
  constructor
  · rintro hn id t ht rfl
    rw [h.key_iff.2 ⟨t, ht, rfl⟩] at hn
    cases hn
  · intro hn
    cases hk : l.keys[key]? with
    | none => rfl
    | some id =>
      obtain ⟨t, ht, htk⟩ := h.key_iff.1 hk
      exact absurd htk (hn id t ht)

/-- Ledgers with the same rows are equal. -/
theorem ext {l' : Ledger} (h : l.Indexed) (h' : l'.Indexed)
    (hsame : ∀ id s, l.Holds id s ↔ l'.Holds id s) : l = l' := by
  have hrows : l.rows = l'.rows := by
    apply Std.ExtTreeMap.ext_getElem?
    intro id
    cases he : l.rows[id]? with
    | none =>
      rw [h.getElem?_eq_none_iff] at he
      exact (h'.getElem?_eq_none_iff.2 fun t ht => he t ((hsame id t).2 ht)).symm
    | some e =>
      obtain ⟨s, rfl, hs⟩ := h.holds_of_getElem? he
      exact ((hsame id s).1 hs).symm
  have hkeys : l.keys = l'.keys := by
    apply Std.ExtTreeMap.ext_getElem?
    intro key
    apply Option.ext
    intro id
    rw [h.key_iff, h'.key_iff]
    simp only [hsame]
  show Ledger.mk l.rows l.keys = Ledger.mk l'.rows l'.keys
  rw [hrows, hkeys]

end Indexed

theorem insert_eq_ok_iff {l l' : Ledger} {s : Session} :
    l.insert s = .ok l' ↔ s.validate = .ok () ∧ l.rows[s.id]? = none ∧ l.keys[s.peerKey]? = none ∧
      l' = ⟨l.rows.insert s.id (.row s), l.keys.insert s.peerKey s.id⟩ := by
  rw [insert, insertMany_eq_ok_iff, ← insertRow_eq_ok_iff]
  simp only [List.mem_singleton, forall_eq, List.foldlM_cons, List.foldlM_nil, bind_pure]

/-- A session that is inserted stands under its id. -/
theorem holds_of_insert {l l' : Ledger} {s : Session} (h : l.insert s = .ok l') :
    l'.Holds s.id s := by
  obtain ⟨-, -, -, rfl⟩ := insert_eq_ok_iff.1 h
  exact Std.ExtTreeMap.getElem?_insert_self

/-- A session is inserted exactly if it is valid and neither its id nor its peer key
    stands in a row. -/
theorem Indexed.insert_isOk_iff {l : Ledger} (h : l.Indexed) {s : Session} :
    (l.insert s).isOk ↔ s.validate = .ok () ∧ (∀ t, ¬ l.Holds s.id t) ∧
      ∀ id t, l.Holds id t → t.peerKey ≠ s.peerKey := by
  rw [isOk_iff, ← h.getElem?_eq_none_iff, ← h.keys_getElem?_eq_none_iff]
  constructor
  · rintro ⟨l', hl⟩
    obtain ⟨hv, hid, hkey, -⟩ := insert_eq_ok_iff.1 hl
    exact ⟨hv, hid, hkey⟩
  · rintro ⟨hv, hid, hkey⟩
    exact ⟨_, insert_eq_ok_iff.2 ⟨hv, hid, hkey, rfl⟩⟩

end VpnNode.Ledger
