import VpnNode.Proofs.Ledger.Written

/-!
# The two steps of an operation

An operation that updates or removes rows looks their ids up first and writes the rows under
them later, in a transaction. An insertion looks nothing up.

An update tests its filter again in the transaction. A removal does not: it takes what stands
under the ids.

Main statements:

* `perform_eq_transact`: an operation is its look-up and its transaction, one after the other.
* `Indexed.mem_of_updateIds`, `Indexed.mem_of_deleteIds_iff`: what transactions do, row by row.
* `Indexed.holds_of_transact`: a row after a transaction was there before, or is stored by it.
* `Indexed.of_lookUp`: what a look-up finds.
-/

namespace VpnNode.Ledger

variable {l l' : Ledger} {s t : Session} {id : UInt64} {f : Filter} {u : Update}

/-! ## The two steps of an operation -/

namespace Operation

/-- The filter of an operation that removes rows. -/
def removal? : Operation → Option Filter
  | .deleteOne f | .deleteMany f => some f
  | _ => none

/-- The filter of an operation that updates rows, and what it writes. -/
def revision? : Operation → Option (Filter × Update)
  | .updateOne f u | .updateMany f u => some (f, u)
  | _ => none

/-- The ids that an operation works on. An update is checked before. -/
def lookUp (l : Ledger) : Operation → Except Error (List UInt64)
  | .insert _ | .insertMany _ => .ok []
  | .updateOne f u => do
    u.validate.mapError .invalidUpdate
    return (← l.matchingIds f).take 1
  | .updateMany f u => do
    u.validate.mapError .invalidUpdate
    l.matchingIds f
  | .deleteOne f => do
    return (← l.matchingIds f).take 1
  | .deleteMany f => l.matchingIds f

/-- The transaction of an operation on these ids; gives the rows that it stores, rewrites
    or removes. -/
def transact (l : Ledger) (ids : List UInt64) : Operation → Except Failure (List Session × Ledger)
  | .insert s => failing ((l.insert s).map ([s], ·))
  | .insertMany ss => failing ((l.insertMany ss).map (ss, ·))
  | .updateOne f u | .updateMany f u => l.updateIds f u ids
  | .deleteOne _ | .deleteMany _ => failing (l.deleteIds ids)

end Operation

/-- A transaction stores rows, updates rows or removes rows. -/
theorem Operation.transact_cases {op : Operation} {ids : List UInt64} {rows : List Session}
    (h : op.transact l ids = .ok (rows, l')) :
    (op.adds = true ∧ (op.revision? = none ∧ op.removal? = none) ∧ l.insertMany rows = .ok l') ∨
    (∃ f u, op.revision? = some (f, u) ∧ op.removal? = none ∧
      l.updateIds f u ids = .ok (rows, l')) ∨
    ∃ f, op.removal? = some f ∧ op.revision? = none ∧ l.deleteIds ids = .ok (rows, l') := by
  have hinsert : ∀ {ss}, failing ((l.insertMany ss).map (ss, ·)) = .ok (rows, l') →
      l.insertMany rows = .ok l' := fun {ss} hi => by
    cases hss : l.insertMany ss with
    | error e =>
      rw [hss] at hi
      cases hi
    | ok l₁ =>
      rw [hss] at hi
      cases hi
      exact hss
  cases op with
  | insert s => exact .inl ⟨rfl, ⟨rfl, rfl⟩, hinsert h⟩
  | insertMany ss => exact .inl ⟨rfl, ⟨rfl, rfl⟩, hinsert h⟩
  | updateOne f u => exact .inr (.inl ⟨f, u, rfl, rfl, h⟩)
  | updateMany f u => exact .inr (.inl ⟨f, u, rfl, rfl, h⟩)
  | deleteOne f => exact .inr (.inr ⟨f, rfl, rfl, mapError_eq_ok_iff.1 h⟩)
  | deleteMany f => exact .inr (.inr ⟨f, rfl, rfl, mapError_eq_ok_iff.1 h⟩)

/-- What is left does not depend on what is given besides. -/
theorem settle_map_bind (l : Ledger) (x : Except ε (α × Ledger)) (g : α → β) :
    l.settle ((x >>= fun y => pure (g y.1, y.2)).map (·.2)) = l.settle (x.map (·.2)) := by
  cases x <;> rfl

theorem settle_map_failing (l : Ledger) (x : Except Error (α × Ledger)) :
    l.settle ((failing x).map (·.2)) = l.settle (x.map (·.2)) := by
  cases x <;> rfl

theorem settle_failing_map (l : Ledger) (x : Except Error Ledger) (a : α) :
    l.settle ((failing (x.map (a, ·))).map (·.2)) = l.settle x := by
  cases x <;> rfl

/-- What an operation leaves is what its transaction leaves on the ids of its look-up. -/
theorem perform_eq_transact (l : Ledger) (op : Operation) :
    l.perform op =
      match op.lookUp l with
      | .ok ids => l.settle ((op.transact l ids).map (·.2))
      | .error _ => l := by
  cases op with
  | insert s => exact (l.settle_failing_map (l.insert s) [s]).symm
  | insertMany ss => exact (l.settle_failing_map (l.insertMany ss) ss).symm
  | updateOne f u =>
    simp only [perform, updateOne, Operation.lookUp]
    cases u.validate with
    | error fault => rfl
    | ok _ =>
      rcases l.matchingIds f with e | (_ | ⟨id, ids⟩)
      · rfl
      · rfl
      · exact l.settle_map_bind (l.updateIds f u [id]) List.getLast?
  | updateMany f u =>
    simp only [perform, updateMany, Operation.lookUp]
    cases u.validate with
    | error fault => rfl
    | ok _ =>
      cases l.matchingIds f with
      | error e => rfl
      | ok ids => exact l.settle_map_bind (l.updateIds f u ids) List.length
  | deleteOne f =>
    simp only [perform, deleteOne, Operation.lookUp]
    rcases l.matchingIds f with e | (_ | ⟨id, ids⟩)
    · rfl
    · rfl
    · exact (l.settle_map_bind (l.deleteIds [id]) List.getLast?).trans
        (l.settle_map_failing (l.deleteIds [id])).symm
  | deleteMany f =>
    simp only [perform, deleteMany, Operation.lookUp]
    cases l.matchingIds f with
    | error e => rfl
    | ok ids =>
      exact (l.settle_map_bind (l.deleteIds ids) List.length).trans
        (l.settle_map_failing (l.deleteIds ids)).symm

/-! ## What transactions do to single rows -/

theorem get_eq_some_iff : l.get id = .ok (some s) ↔ l.Holds id s := by
  unfold get Holds
  obtain _ | (_ | _) := l.rows[id]? <;> simp

/-- An update of one row of several: what it writes first, and the rest. -/
theorem updateIds_cons_of_holds {ids : List UInt64} {written : List Session} (hs : l.Holds id s)
    (hm : f.matchesRow s = true) (hu : l.updateIds f u (id :: ids) = .ok (written, l')) :
    ∃ t rest, u.apply s = .ok t ∧ written = t :: rest ∧
      updateIds { l with rows := l.rows.insert id (.row t) } f u ids = .ok (rest, l') := by
  unfold updateIds at hu
  rw [get_eq_some_iff.2 hs] at hu
  dsimp only at hu
  rw [if_pos hm] at hu
  cases ha : u.apply s with
  | error c => simp [ha] at hu
  | ok t =>
    rw [ha] at hu
    dsimp only at hu
    split at hu
    · cases hu
    · rename_i rest _ hrest
      cases hu
      exact ⟨t, rest, rfl, rfl, hrest⟩

/-- An update passes over an id without a row that matches. -/
theorem updateIds_cons_of_not_holds {ids : List UInt64} {x : List Session × Ledger}
    (hno : ∀ s, l.Holds id s → ¬ f.matchesRow s = true)
    (hu : l.updateIds f u (id :: ids) = .ok x) : l.updateIds f u ids = .ok x := by
  unfold updateIds at hu
  split at hu
  · cases hu
  · exact hu
  · rename_i s hs
    rwa [if_neg (hno s (get_eq_some_iff.1 hs))] at hu

/-- What stands under other ids is as before. -/
theorem getElem?_insert_of_ne {id' : UInt64} (hne : id ≠ id') (l : Ledger) (e : Entry) :
    (l.rows.insert id e)[id']? = l.rows[id']? := by
  rw [Std.ExtTreeMap.getElem?_insert]
  simp only [Std.compare_eq_iff_eq, hne, if_false]

theorem holds_erase_iff {id' : UInt64} {key : String} :
    Holds ⟨l.rows.erase id, l.keys.erase key⟩ id' s ↔ l.Holds id' s ∧ id' ≠ id := by
  unfold Holds
  rw [Std.ExtTreeMap.getElem?_erase]
  simp only [Std.compare_eq_iff_eq]
  by_cases hid : id = id'
  · simp [hid]
  · simp [hid, Ne.symm hid]

/-- A row that an update writes is a row that matched, under one of the ids, with the update
    applied to it. All other entries are as before. -/
theorem Indexed.mem_of_updateIds (h : l.Indexed) {ids : List UInt64} (hnodup : ids.Nodup)
    {written : List Session} (hu : l.updateIds f u ids = .ok (written, l')) :
    (∀ t ∈ written, ∃ s, l.Holds s.id s ∧ s.id ∈ ids ∧ f.matchesRow s = true ∧
      u.apply s = .ok t ∧ l'.Holds s.id t) ∧
    ∀ id', (∀ t ∈ written, t.id ≠ id') → l'.rows[id']? = l.rows[id']? := by
  induction ids generalizing l written with
  | nil =>
    cases hu
    exact ⟨List.forall_mem_nil _, fun _ _ => rfl⟩
  | cons id ids ih =>
    rw [List.nodup_cons] at hnodup
    by_cases hrow : ∃ s, l.Holds id s ∧ f.matchesRow s = true
    · obtain ⟨s, hs, hm⟩ := hrow
      obtain ⟨t, rest, ha, rfl, hrest⟩ := updateIds_cons_of_holds hs hm hu
      obtain rfl := h.id_eq hs
      have hst := Update.apply_fixed ha
      obtain ⟨hwritten, hothers⟩ := ih (h.rewrite hs hst.id hst.peerKey) hnodup.2 hrest
      -- The rest of the ids do not reach the row that was written first.
      have hkept : l'.Holds s.id t := by
        unfold Holds
        rw [hothers s.id fun r hr hid => ?_]
        · exact Std.ExtTreeMap.getElem?_insert_self
        · obtain ⟨q, -, hq, -, happly, -⟩ := hwritten r hr
          rw [(Update.apply_fixed happly).id] at hid
          exact hnodup.1 (hid ▸ hq)
      refine ⟨List.forall_mem_cons.2 ⟨⟨s, hs, List.mem_cons_self, hm, ha, hkept⟩, ?_⟩, ?_⟩
      · intro r hr
        obtain ⟨q, hq, hmem, hrest⟩ := hwritten r hr
        have hne : s.id ≠ q.id := fun hid => hnodup.1 (hid ▸ hmem)
        refine ⟨q, ?_, List.mem_cons_of_mem _ hmem, hrest⟩
        rwa [Holds, getElem?_insert_of_ne hne] at hq
      · intro id' hid'
        rw [List.forall_mem_cons] at hid'
        rw [hothers id' hid'.2, getElem?_insert_of_ne (hst.id ▸ hid'.1)]
    · have hno : ∀ s, l.Holds id s → ¬ f.matchesRow s = true := fun s hs hm => hrow ⟨s, hs, hm⟩
      obtain ⟨hwritten, hothers⟩ := ih h hnodup.2 (updateIds_cons_of_not_holds hno hu)
      refine ⟨fun t ht => ?_, hothers⟩
      obtain ⟨s, hs, hmem, hrest⟩ := hwritten t ht
      exact ⟨s, hs, List.mem_cons_of_mem _ hmem, hrest⟩

/-- A removal takes the rows under its ids, whatever they are, and no other. -/
theorem Indexed.mem_of_deleteIds_iff (h : l.Indexed) {ids : List UInt64} {removed : List Session}
    (hd : l.deleteIds ids = .ok (removed, l')) :
    (∀ s, s ∈ removed ↔ l.Holds s.id s ∧ s.id ∈ ids) ∧
    ∀ id' s, l'.Holds id' s ↔ l.Holds id' s ∧ id' ∉ ids := by
  induction ids generalizing l removed with
  | nil =>
    cases hd
    exact ⟨by simp, by simp⟩
  | cons id ids ih =>
    unfold Ledger.deleteIds at hd
    rw [h.get_eq] at hd
    cases hrow : l.row? id with
    | none =>
      have hno := row?_eq_none_iff.1 hrow
      rw [hrow] at hd
      obtain ⟨hremoved, hleft⟩ := ih h hd
      have hne : ∀ {id' s}, l.Holds id' s → id' ≠ id := by
        rintro _ s hs rfl
        exact hno s hs
      refine ⟨fun s => ?_, fun id' s => ?_⟩
      · rw [hremoved, List.mem_cons]
        exact and_congr_right fun hs => (or_iff_right (hne hs)).symm
      · rw [hleft, List.mem_cons, not_or]
        exact and_congr_right fun hs => (and_iff_right (hne hs)).symm
    | some r =>
      have hr := row?_eq_some_iff.1 hrow
      obtain rfl := h.id_eq hr
      rw [hrow] at hd
      replace hd : (Ledger.deleteIds ⟨l.rows.erase r.id, l.keys.erase r.peerKey⟩ ids >>= fun x =>
        pure (r :: x.1, x.2)) = .ok (removed, l') := hd
      obtain ⟨⟨rest, l₁⟩, hrest, heq⟩ := bind_eq_ok_iff.1 hd
      cases heq
      obtain ⟨hremoved, hleft⟩ := ih (h.remove hr) hrest
      refine ⟨fun s => ?_, fun id' s => ?_⟩
      · rw [List.mem_cons, hremoved, holds_erase_iff, List.mem_cons]
        constructor
        · rintro (rfl | ⟨⟨hs, -⟩, hmem⟩)
          · exact ⟨hr, .inl rfl⟩
          · exact ⟨hs, .inr hmem⟩
        · rintro ⟨hs, hmem⟩
          by_cases hid : s.id = r.id
          · rw [hid] at hs
            exact .inl (hs.unique hr)
          · exact .inr ⟨⟨hs, hid⟩, hmem.resolve_left hid⟩
      · rw [hleft, holds_erase_iff, List.mem_cons, not_or, and_assoc]

/-! ## Where rows come from -/

/-- A row after an insertion was there before, or is one of those stored. -/
theorem holds_of_insertMany {ss : List Session} (hi : l.insertMany ss = .ok l')
    (ht : l'.Holds id t) : l.Holds id t ∨ t ∈ ss := by
  replace hi := (insertMany_eq_ok_iff.1 hi).2
  induction ss generalizing l with
  | nil =>
    cases hi
    exact .inl ht
  | cons s ss ih =>
    rw [List.foldlM_cons] at hi
    obtain ⟨l₁, hs, hi⟩ := bind_eq_ok_iff.1 hi
    obtain ⟨-, -, rfl⟩ := insertRow_eq_ok_iff.1 hs
    rcases ih hi with hold | hmem
    · simp only [Holds, Std.ExtTreeMap.getElem?_insert, Std.compare_eq_iff_eq] at hold
      split at hold
      · cases hold
        exact .inr List.mem_cons_self
      · exact .inl hold
    · exact .inr (List.mem_cons_of_mem _ hmem)

/-- A row after an update was there before, at most with other usage. -/
theorem Indexed.holds_of_updateIds (h : l.Indexed) {ids : List UInt64} (hnodup : ids.Nodup)
    {written : List Session} (hu : l.updateIds f u ids = .ok (written, l'))
    (ht : l'.Holds id t) : ∃ s, l.Holds id s ∧ s.Fixed t := by
  obtain ⟨hwritten, hothers⟩ := h.mem_of_updateIds hnodup hu
  by_cases hmem : ∃ r ∈ written, r.id = id
  · obtain ⟨r, hr, rfl⟩ := hmem
    obtain ⟨s, hs, -, -, ha, hr'⟩ := hwritten r hr
    have hst := Update.apply_fixed ha
    rw [← hst.id] at hs hr'
    obtain rfl := ht.unique hr'
    exact ⟨s, hs, hst⟩
  · refine ⟨t, ?_, .refl t⟩
    have hsame := hothers id fun r hr hid => hmem ⟨r, hr, hid⟩
    rw [Holds, ← hsame]
    exact ht

/-- A row after a transaction was there before, at most with other usage, or the transaction
    has stored it. -/
theorem Indexed.holds_of_transact (h : l.Indexed) {op : Operation} {ids : List UInt64}
    (hnodup : ids.Nodup) {rows : List Session} (hop : op.transact l ids = .ok (rows, l'))
    (ht : l'.Holds id t) :
    (∃ s, l.Holds id s ∧ s.Fixed t) ∨ op.adds = true ∧ t ∈ rows := by
  obtain ⟨hadds, -, hi⟩ | ⟨f, u, -, -, hu⟩ | ⟨f, -, -, hd⟩ := op.transact_cases hop
  · exact (holds_of_insertMany hi ht).imp (fun ht => ⟨t, ht, .refl t⟩) fun ht => ⟨hadds, ht⟩
  · exact .inl (h.holds_of_updateIds hnodup hu ht)
  · exact .inl ⟨t, holds_of_deleteIds hd ht, .refl t⟩

theorem Indexed.transact (h : l.Indexed) {op : Operation} {ids : List UInt64}
    {rows : List Session} (hop : op.transact l ids = .ok (rows, l')) : l'.Indexed := by
  obtain ⟨-, -, hi⟩ | ⟨f, u, -, -, hu⟩ | ⟨f, -, -, hd⟩ := op.transact_cases hop
  · exact h.insertMany hi
  · exact h.updateIds hu
  · exact h.deleteIds hd

/-! ## What look-ups find -/

/-- A filter takes what an update leaves of a row as it takes the row. -/
theorem Filter.matchesRow_fixed (hst : s.Fixed t) (f : Filter) :
    f.matchesRow t = f.matchesRow s := by
  unfold matchesRow
  rw [hst.id, hst.peerKey, hst.accountAddress, hst.service]

/-- A look-up finds different ids, each of a row that matches. -/
theorem Indexed.of_matchingIds (h : l.Indexed) {ids : List UInt64}
    (hids : l.matchingIds f = .ok ids) :
    ids.Nodup ∧ ∀ id ∈ ids, ∃ s, l.Holds id s ∧ f.matchesRow s = true := by
  rw [h.matchingIds_eq] at hids
  cases hids
  constructor
  · refine (List.filter_sublist.map _).nodup ?_
    rw [h.map_id_sessions]
    exact Std.ExtTreeMap.nodup_keys
  · refine List.forall_mem_map.2 fun s hs => ?_
    obtain ⟨hs, hm⟩ := List.mem_filter.1 hs
    exact ⟨s, h.mem_sessions.1 hs, hm⟩

/-- So does the look-up of an operation with a filter. -/
theorem Indexed.of_lookUp (h : l.Indexed) {op : Operation} {ids : List UInt64}
    (hids : op.lookUp l = .ok ids) :
    ids.Nodup ∧ ∀ f, op.removal? = some f →
      ∀ id ∈ ids, ∃ s, l.Holds id s ∧ f.matchesRow s = true := by
  -- The first of the ids found is one of them.
  have htake : ∀ {f : Filter} {ids : List UInt64}, l.matchingIds f = .ok ids →
      (ids.take 1).Nodup ∧ ∀ id ∈ ids.take 1, ∃ s, l.Holds id s ∧ f.matchesRow s = true :=
    fun hids => by
      obtain ⟨hnodup, hmatch⟩ := h.of_matchingIds hids
      exact ⟨hnodup.sublist (List.take_sublist 1 _), fun id hid =>
        hmatch id (List.mem_of_mem_take hid)⟩
  cases op with
  | insert s =>
    cases hids
    exact ⟨List.nodup_nil, nofun⟩
  | insertMany ss =>
    cases hids
    exact ⟨List.nodup_nil, nofun⟩
  | updateOne f u =>
    obtain ⟨_, -, hids⟩ := bind_eq_ok_iff.1 hids
    obtain ⟨found, hfound, hids⟩ := bind_eq_ok_iff.1 hids
    cases hids
    exact ⟨(htake hfound).1, nofun⟩
  | updateMany f u =>
    obtain ⟨_, -, hids⟩ := bind_eq_ok_iff.1 hids
    exact ⟨(h.of_matchingIds hids).1, nofun⟩
  | deleteOne f =>
    obtain ⟨found, hfound, hids⟩ := bind_eq_ok_iff.1 hids
    cases hids
    refine ⟨(htake hfound).1, fun f' hf => ?_⟩
    cases hf
    exact (htake hfound).2
  | deleteMany f =>
    refine ⟨(h.of_matchingIds hids).1, fun f' hf => ?_⟩
    cases hf
    exact (h.of_matchingIds hids).2

end VpnNode.Ledger
