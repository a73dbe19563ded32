import VpnNode.Proofs.Ledger.Frame

/-!
# Ledgers that operations lead to

The six operations on the ledger, one after the other on an empty ledger, each with any
arguments. One that fails leaves the ledger as it was.

Main statements:

* `perform_cases`: an operation comes to one transaction, or to none.
* `Indexed.perform`, `Indexed.after`: rows and index stay inverse to each other.
* `extends_or_holds`: an operation loses no row, or it adds and changes none.
* `rows_index_inverse`: what holds of rows, index and peer keys after any operations.
-/

namespace VpnNode.Ledger

/-! ## Operations -/

/-- An operation on the ledger, with its arguments. -/
inductive Operation where
  | insert (s : Session)
  | insertMany (ss : List Session)
  | updateOne (f : Filter) (u : Update)
  | updateMany (f : Filter) (u : Update)
  | deleteOne (f : Filter)
  | deleteMany (f : Filter)

/-- What an operation leaves; one that fails leaves the ledger as it was. -/
def settle (l : Ledger) (x : Except ε Ledger) : Ledger :=
  match x with
  | .ok l' => l'
  | .error _ => l

/-- The ledger after an operation. -/
def perform (l : Ledger) : Operation → Ledger
  | .insert s => l.settle (l.insert s)
  | .insertMany ss => l.settle (l.insertMany ss)
  | .updateOne f u => l.settle ((l.updateOne f u).map (·.2))
  | .updateMany f u => l.settle ((l.updateMany f u).map (·.2))
  | .deleteOne f => l.settle ((l.deleteOne f).map (·.2))
  | .deleteMany f => l.settle ((l.deleteMany f).map (·.2))

/-- The ledger after operations on an empty one. -/
def after (ops : List Operation) : Ledger := ops.foldl perform empty

/-! ## Transactions of operations -/

theorem updateOne_eq_ok {l l' : Ledger} {f : Filter} {u : Update} {x : Option Session}
    (h : l.updateOne f u = .ok (x, l')) :
    ∃ ids written, l.updateIds f u ids = .ok (written, l') := by
  unfold updateOne at h
  obtain ⟨-, -, h⟩ := bind_eq_ok_iff.1 h
  obtain ⟨ids, -, h⟩ := bind_eq_ok_iff.1 h
  split at h
  · cases h; exact ⟨[], [], rfl⟩
  · obtain ⟨⟨written, l₁⟩, hu, h⟩ := bind_eq_ok_iff.1 h
    cases h
    exact ⟨_, written, hu⟩

theorem updateMany_eq_ok {l l' : Ledger} {f : Filter} {u : Update} {n : Nat}
    (h : l.updateMany f u = .ok (n, l')) :
    ∃ ids written, l.updateIds f u ids = .ok (written, l') := by
  unfold updateMany at h
  obtain ⟨-, -, h⟩ := bind_eq_ok_iff.1 h
  obtain ⟨ids, -, h⟩ := bind_eq_ok_iff.1 h
  obtain ⟨⟨written, l₁⟩, hu, h⟩ := bind_eq_ok_iff.1 h
  cases h
  exact ⟨ids, written, hu⟩

theorem deleteOne_eq_ok {l l' : Ledger} {f : Filter} {x : Option Session}
    (h : l.deleteOne f = .ok (x, l')) : ∃ ids removed, l.deleteIds ids = .ok (removed, l') := by
  unfold deleteOne at h
  obtain ⟨ids, -, h⟩ := bind_eq_ok_iff.1 h
  split at h
  · cases h; exact ⟨[], [], rfl⟩
  · obtain ⟨⟨removed, l₁⟩, hd, h⟩ := bind_eq_ok_iff.1 h
    cases h
    exact ⟨_, removed, hd⟩

theorem deleteMany_eq_ok {l l' : Ledger} {f : Filter} {n : Nat}
    (h : l.deleteMany f = .ok (n, l')) : ∃ ids removed, l.deleteIds ids = .ok (removed, l') := by
  unfold deleteMany at h
  obtain ⟨ids, -, h⟩ := bind_eq_ok_iff.1 h
  obtain ⟨⟨removed, l₁⟩, hd, h⟩ := bind_eq_ok_iff.1 h
  cases h
  exact ⟨ids, removed, hd⟩

/-- What an operation leaves is what it writes, or the ledger as it was. -/
theorem settle_cases (l : Ledger) (x : Except ε Ledger) :
    l.settle x = l ∨ x = .ok (l.settle x) := by
  cases x with
  | ok l' => exact .inr rfl
  | error e => exact .inl rfl

theorem settle_map_cases (l : Ledger) (x : Except ε (α × Ledger)) :
    l.settle (x.map (·.2)) = l ∨ ∃ a, x = .ok (a, l.settle (x.map (·.2))) := by
  cases x with
  | ok p => exact .inr ⟨p.1, rfl⟩
  | error e => exact .inl rfl

/-- An operation changes nothing, or is one of three kinds of transaction. -/
theorem perform_cases (l : Ledger) (op : Operation) :
    l.perform op = l ∨ (∃ ss, l.insertMany ss = .ok (l.perform op)) ∨
      (∃ f u ids written, l.updateIds f u ids = .ok (written, l.perform op)) ∨
      ∃ ids removed, l.deleteIds ids = .ok (removed, l.perform op) := by
  cases op with
  | insert s => exact (l.settle_cases (l.insert s)).imp_right fun h => .inl ⟨[s], h⟩
  | insertMany ss => exact (l.settle_cases (l.insertMany ss)).imp_right fun h => .inl ⟨ss, h⟩
  | updateOne f u =>
    refine (l.settle_map_cases _).imp_right fun ⟨_, hop⟩ => .inr (.inl ?_)
    obtain ⟨ids, written, hu⟩ := updateOne_eq_ok hop
    exact ⟨f, u, ids, written, hu⟩
  | updateMany f u =>
    refine (l.settle_map_cases _).imp_right fun ⟨_, hop⟩ => .inr (.inl ?_)
    obtain ⟨ids, written, hu⟩ := updateMany_eq_ok hop
    exact ⟨f, u, ids, written, hu⟩
  | deleteOne f =>
    refine (l.settle_map_cases _).imp_right fun ⟨_, hop⟩ => .inr (.inr ?_)
    obtain ⟨ids, removed, hd⟩ := deleteOne_eq_ok hop
    exact ⟨ids, removed, hd⟩
  | deleteMany f =>
    refine (l.settle_map_cases _).imp_right fun ⟨_, hop⟩ => .inr (.inr ?_)
    obtain ⟨ids, removed, hd⟩ := deleteMany_eq_ok hop
    exact ⟨ids, removed, hd⟩

namespace Indexed

variable {l : Ledger}

/-- An operation leaves rows and index inverse to each other, whether it succeeds or
    fails. -/
theorem perform (h : l.Indexed) (op : Operation) : (l.perform op).Indexed := by
  obtain heq | ⟨ss, hi⟩ | ⟨f, u, ids, written, hu⟩ | ⟨ids, removed, hd⟩ := l.perform_cases op
  · rw [heq]
    exact h
  · exact h.insertMany hi
  · exact h.updateIds hu
  · exact h.deleteIds hd

/-- So does any sequence of operations on an empty ledger. -/
theorem after (ops : List Operation) : (Ledger.after ops).Indexed := by
  suffices ∀ l : Ledger, l.Indexed → (ops.foldl Ledger.perform l).Indexed from this _ empty
  induction ops with
  | nil => exact fun _ h => h
  | cons op r ih => exact fun l h => ih _ (h.perform op)

end Indexed

/-! ## Rows before and after -/

/-- An operation loses no row, or it adds and changes none. -/
theorem extends_or_holds (l : Ledger) (op : Operation) :
    Extends l (l.perform op) ∨ ∀ id s, (l.perform op).Holds id s → l.Holds id s := by
  obtain heq | ⟨ss, hi⟩ | ⟨f, u, ids, written, hu⟩ | ⟨ids, removed, hd⟩ := l.perform_cases op
  · rw [heq]
    exact .inl (.refl l)
  · exact .inl (.insertMany hi)
  · exact .inl (.updateIds hu)
  · exact .inr fun id s hs => holds_of_deleteIds hd hs

/-- The operation that takes a row away frees its peer key. -/
theorem Indexed.key_free {l : Ledger} (h : l.Indexed) {op : Operation} {id : UInt64} {t : Session}
    (ht : l.Holds id t) (hgone : ∀ u, ¬ (l.perform op).Holds id u) {id' : UInt64} {u : Session}
    (hu : (l.perform op).Holds id' u) : u.peerKey ≠ t.peerKey := by
  intro hk
  obtain he | hb := l.extends_or_holds op
  · obtain ⟨t', ht', -⟩ := he id t ht
    exact hgone t' ht'
  · obtain ⟨rfl, rfl⟩ := h.holds_of_key ht (hb id' u hu) hk.symm
    exact hgone t hu

/-! ## After any operations -/

/-- After any operations, successful or not, every row can be read and stands under its
    own id; the index maps exactly the peer keys of the rows to their ids; no two rows
    share an id or a peer key; and there are as many rows as index entries. A peer key
    is refused as long as its row stands, and taken again once an operation has removed
    the row. -/
theorem rows_index_inverse (ops : List Operation) :
    (∀ id : UInt64, (after ops).rows[id]? ≠ some .unreadable) ∧
    (∀ id s, (after ops).Holds id s → s.id = id) ∧
    (∀ (key : String) (id : UInt64),
      (after ops).keys[key]? = some id ↔ ∃ s, (after ops).Holds id s ∧ s.peerKey = key) ∧
    (∀ id s id' s', (after ops).Holds id s → (after ops).Holds id' s' →
      s.id = s'.id ∨ s.peerKey = s'.peerKey → id = id' ∧ s = s') ∧
    (after ops).count = (after ops).keys.size ∧
    (∀ id t s, (after ops).Holds id t → s.peerKey = t.peerKey →
      ¬ ((after ops).insert s).isOk) ∧
    (∀ op id t s, (after ops).Holds id t → (∀ u, ¬ (after (ops ++ [op])).Holds id u) →
      s.validate = .ok () → s.peerKey = t.peerKey →
      (∀ u, ¬ (after (ops ++ [op])).Holds s.id u) → ((after (ops ++ [op])).insert s).isOk) := by
  have h := Indexed.after ops
  have happ : ∀ op, after (ops ++ [op]) = (after ops).perform op := fun op => by
    simp only [after, List.foldl_append, List.foldl_cons, List.foldl_nil]
  refine ⟨h.readable, fun _ _ => h.id_eq, fun _ _ => h.key_iff, ?_, h.count_eq, ?_, ?_⟩
  · rintro id s id' s' hs hs' (hid | hkey)
    · rw [h.id_eq hs, h.id_eq hs'] at hid
      subst hid
      exact ⟨rfl, hs.unique hs'⟩
    · exact h.holds_of_key hs hs' hkey
  · intro id t s ht hk hok
    obtain ⟨-, -, hfree⟩ := h.insert_isOk_iff.1 hok
    exact hfree id t ht hk.symm
  · intro op id t s ht hgone hv hk hid
    rw [happ] at hgone hid ⊢
    refine (h.perform op).insert_isOk_iff.2 ⟨hv, hid, fun id' u hu => ?_⟩
    rw [hk]
    exact h.key_free ht hgone hu

end VpnNode.Ledger
