import VpnNode.Proofs.Ledger.Transaction
import VpnNode.Proofs.Ledger.WellFormed

/-!
# Look-ups agree with scans

A look-up that fixes the id or the peer key reads a single row, found by its id or by the
index. That it misses no other row is due to the invariant of the ledger: rows and index are
inverse to each other. So every look-up finds what a scan of all rows finds, and writes reach
those rows and no other.

Main statements:

* `find_eq_of_id`, `find_eq_of_peerKey`: what such a look-up does not depend on.
* `Indexed.exists_deleteIds`: a removal gives the rows that it takes, in order.
* `index_agrees_with_scan`: look-ups and writes by any filter, against a scan.
-/

namespace VpnNode.Ledger

open Session (Counted)

variable {l l' : Ledger} {s t : Session} {id : UInt64} {f : Filter} {u : Update}
  {rows : List Session}

/-! ## What a look-up reads -/

/-- A look-up with an id reads the row under the id and nothing else, whatever stands in the
    rest of the ledger. -/
theorem find_eq_of_id (hf : f.id = some id) (hrow : l'.rows[id]? = l.rows[id]?) :
    l'.find f = l.find f := by
  have hindexed : ∀ m : Ledger, m.indexedId f = some (some id) := by
    intro m
    simp [indexedId, hf]
  have hget : l'.get id = l.get id := by
    simp only [get, hrow]
  simp only [find, hindexed, hget]

/-- A look-up with a peer key and no id reads the entry of the key and the row that it leads
    to. -/
theorem find_eq_of_peerKey {key : String} (hid : f.id = none) (hf : f.peerKey = some key)
    (hkey : l'.keys[key]? = l.keys[key]?)
    (hrow : ∀ id, l.keys[key]? = some id → l'.rows[id]? = l.rows[id]?) :
    l'.find f = l.find f := by
  have hindexed : ∀ m : Ledger, m.indexedId f = some m.keys[key]? := by
    intro m
    simp [indexedId, hid, hf]
  unfold find
  rw [hindexed, hindexed, hkey]
  cases hk : l.keys[key]? with
  | none => rfl
  | some id => simp only [get, hrow id hk]

/-! ## What writes leave -/

/-- Some rows have been written anew with an update, and every other row is as it was. -/
structure Rewritten (u : Update) (rows : List Session) (l l' : Ledger) : Prop where
  indexed : l'.Indexed
  holds : ∀ id t, l'.Holds id t ↔
    ∃ s, l.Holds id s ∧ if s ∈ rows then u.apply s = .ok t else t = s

/-- Some rows have been removed, and every other row is as it was. -/
structure Removed (rows : List Session) (l l' : Ledger) : Prop where
  indexed : l'.Indexed
  holds : ∀ id s, l'.Holds id s ↔ l.Holds id s ∧ s ∉ rows

/-- To write an update into the rows with a property is to write these rows anew. -/
theorem WellFormed.rewritten (h : l.WellFormed) (u : Update) {p : Session → Bool}
    (hp : ∀ s, l.Holds s.id s → (p s = true ↔ s ∈ rows)) :
    Rewritten u rows l (l.revise (updating u p)) := by
  refine ⟨h.indexed.updating u p, fun id t => ?_⟩
  rw [holds_revise]
  refine exists_congr fun s => and_congr_right fun hs => ?_
  have hmem := hp s (h.indexed.id_eq hs ▸ hs)
  have happly := Update.apply_eq_written (h.counted id s hs) u
  unfold updating
  by_cases hrow : s ∈ rows
  · rw [if_pos (hmem.2 hrow), if_pos hrow, happly, Except.ok.injEq]
  · rw [if_neg (mt hmem.1 hrow), if_neg hrow, eq_comm]

namespace Indexed

theorem nodup_map_id_filter (h : l.Indexed) (p : Session → Bool) :
    ((l.sessions.filter p).map (·.id)).Nodup := by
  refine (List.filter_sublist.map _).nodup ?_
  rw [h.map_id_sessions]
  exact Std.ExtTreeMap.nodup_keys

/-- A removal gives the rows that it takes, in order. -/
theorem exists_deleteIds (h : l.Indexed) (hnodup : (rows.map (·.id)).Nodup)
    (hrows : ∀ s ∈ rows, l.Holds s.id s) :
    ∃ l', l.deleteIds (rows.map (·.id)) = .ok (rows, l') := by
  induction rows generalizing l with
  | nil => exact ⟨l, rfl⟩
  | cons s rows ih =>
    rw [List.map_cons, List.nodup_cons] at hnodup
    rw [List.forall_mem_cons] at hrows
    have hrest : ∀ t ∈ rows, Holds ⟨l.rows.erase s.id, l.keys.erase s.peerKey⟩ t.id t := by
      intro t ht
      refine (hrows.2 t ht).erase (fun hid => hnodup.1 ?_) s.peerKey
      exact List.mem_map.2 ⟨t, ht, hid⟩
    obtain ⟨l', hl'⟩ := ih (h.remove hrows.1) hnodup.2 hrest
    refine ⟨l', ?_⟩
    rw [List.map_cons, Ledger.deleteIds, h.get_eq, row?_eq_some_iff.2 hrows.1]
    simp only [bind, Except.bind, hl', pure, Except.pure]

/-- The removal of rows by their ids takes these rows and no other. -/
theorem exists_removed (h : l.Indexed) (hnodup : (rows.map (·.id)).Nodup)
    (hrows : ∀ s ∈ rows, l.Holds s.id s) :
    ∃ l', l.deleteIds (rows.map (·.id)) = .ok (rows, l') ∧ Removed rows l l' := by
  obtain ⟨l', hl'⟩ := h.exists_deleteIds hnodup hrows
  refine ⟨l', hl', h.deleteIds hl', fun id s => ?_⟩
  rw [(h.mem_of_deleteIds_iff hl').2]
  refine and_congr_right fun hs => not_congr ?_
  obtain rfl := h.id_eq hs
  constructor
  · intro hid
    obtain ⟨t, ht, heq⟩ := List.mem_map.1 hid
    have htl := hrows t ht
    rw [heq] at htl
    exact hs.unique htl ▸ ht
  · exact fun hs => List.mem_map_of_mem hs

/-- A removal by any filter takes the rows that a scan finds. -/
theorem exists_deleteMany (h : l.Indexed) (f : Filter) :
    ∃ l', l.deleteMany f = .ok ((l.sessions.filter f.matchesRow).length, l') ∧
      Removed (l.sessions.filter f.matchesRow) l l' := by
  have hrows : ∀ s ∈ l.sessions.filter f.matchesRow, l.Holds s.id s := by
    intro s hs
    exact h.mem_sessions.1 (List.mem_filter.1 hs).1
  obtain ⟨l', hl', hremoved⟩ := h.exists_removed (h.nodup_map_id_filter f.matchesRow) hrows
  refine ⟨l', ?_, hremoved⟩
  simp only [deleteMany, h.matchingIds_eq, bind, Except.bind, hl', pure, Except.pure]

/-- A removal of one row takes the first that a scan finds. -/
theorem exists_deleteOne (h : l.Indexed) (f : Filter) :
    ∃ l', l.deleteOne f = .ok ((l.sessions.filter f.matchesRow).head?, l') ∧
      Removed ((l.sessions.filter f.matchesRow).take 1) l l' := by
  have hrows : ∀ s ∈ l.sessions.filter f.matchesRow, l.Holds s.id s := by
    intro s hs
    exact h.mem_sessions.1 (List.mem_filter.1 hs).1
  have hfound : l.matchingIds f = .ok ((l.sessions.filter f.matchesRow).map (·.id)) :=
    h.matchingIds_eq f
  generalize l.sessions.filter f.matchesRow = found at hrows hfound
  cases found with
  | nil =>
    refine ⟨l, ?_, h, fun id s => by simp⟩
    simp only [deleteOne, hfound, bind, Except.bind]
    rfl
  | cons s rest =>
    have hsingle : ([s].map (·.id)).Nodup := List.pairwise_singleton _ s.id
    obtain ⟨l', hl', hremoved⟩ := h.exists_removed hsingle
      (List.forall_mem_singleton.2 (hrows s List.mem_cons_self))
    refine ⟨l', ?_, hremoved⟩
    replace hl' : l.deleteIds [s.id] = .ok ([s], l') := hl'
    simp only [deleteOne, hfound, List.map_cons, bind, Except.bind, List.head?_cons, hl', pure,
      Except.pure, List.getLast?_singleton]

end Indexed

/-! ## Against a scan -/

/-- After any operations, a scan reads all rows, each once and by ascending id, and for every
    filter the look-ups find those of them that match, and the first of them. A filter with an
    id or a peer key gets by with one row: nothing else in the ledger bears on the look-up. An
    update that passes its check writes exactly the matching rows anew and counts them, or
    exactly the first of them and gives it as written; one that does not pass is refused. A
    removal takes exactly the matching rows and counts them, or exactly the first of them and
    gives it. -/
theorem index_agrees_with_scan (ops : List Operation) (f : Filter) :
    ∃ all, (after ops).scan = .ok all ∧
      (all.map (·.id)).Pairwise (· < ·) ∧ (∀ s, s ∈ all ↔ (after ops).Holds s.id s) ∧
      (after ops).find f = .ok (all.filter f.matchesRow) ∧
      (after ops).findOne f = .ok (all.filter f.matchesRow).head? ∧
      (∀ (id : UInt64) (l' : Ledger), f.id = some id → l'.rows[id]? = (after ops).rows[id]? →
        l'.find f = (after ops).find f) ∧
      (∀ (key : String) (l' : Ledger), f.id = none → f.peerKey = some key →
        l'.keys[key]? = (after ops).keys[key]? →
        (∀ id, (after ops).keys[key]? = some id → l'.rows[id]? = (after ops).rows[id]?) →
        l'.find f = (after ops).find f) ∧
      (∀ u, u.validate = .ok () →
        (∃ l', (after ops).updateMany f u = .ok ((all.filter f.matchesRow).length, l') ∧
          Rewritten u (all.filter f.matchesRow) (after ops) l') ∧
        ∃ given l', (after ops).updateOne f u = .ok (given, l') ∧
          given.map .ok = (all.filter f.matchesRow).head?.map u.apply ∧
          Rewritten u ((all.filter f.matchesRow).take 1) (after ops) l') ∧
      (∀ u fault, u.validate = .error fault →
        (after ops).updateMany f u = .error (.error (.invalidUpdate fault)) ∧
        (after ops).updateOne f u = .error (.error (.invalidUpdate fault))) ∧
      (∃ l', (after ops).deleteMany f = .ok ((all.filter f.matchesRow).length, l') ∧
        Removed (all.filter f.matchesRow) (after ops) l') ∧
      ∃ l', (after ops).deleteOne f = .ok ((all.filter f.matchesRow).head?, l') ∧
        Removed ((all.filter f.matchesRow).take 1) (after ops) l' := by
  have hw := WellFormed.after ops
  have hi := hw.indexed
  generalize after ops = l at hw hi
  have hscan : l.scan = .ok l.sessions := by rw [← find_all, hi.find_all_eq]
  have hmatch : ∀ s, l.Holds s.id s →
      (f.matchesRow s = true ↔ s ∈ l.sessions.filter f.matchesRow) := by
    intro s hs
    rw [List.mem_filter, hi.mem_sessions, and_iff_right hs]
  have hfirst : ∀ s, decide (l.sessions.find? f.matchesRow = some s) = true ↔
      s ∈ (l.sessions.filter f.matchesRow).take 1 := by
    intro s
    rw [decide_eq_true_eq, ← List.head?_filter]
    cases l.sessions.filter f.matchesRow <;> simp [eq_comm]
  refine ⟨l.sessions, hscan, hi.sessions_ascending, fun s => hi.mem_sessions, hi.find_eq f, ?_,
    fun id l' => find_eq_of_id, fun key l' => find_eq_of_peerKey, ?_, ?_,
    hi.exists_deleteMany f, hi.exists_deleteOne f⟩
  · simp only [findOne, hi.find_eq f, bind, Except.bind, pure, Except.pure]
  · intro u hu
    refine ⟨⟨_, hi.updateMany_eq hw.counted f hu, hw.rewritten u hmatch⟩, _, _,
      hi.updateOne_eq hw.counted f hu, ?_, hw.rewritten u fun s _ => hfirst s⟩
    rw [List.head?_filter]
    cases hs : l.sessions.find? f.matchesRow with
    | none => rfl
    | some s =>
      have hholds := hi.mem_sessions.1 (List.mem_of_find?_eq_some hs)
      simp only [Option.map_some, Update.apply_eq_written (hw.counted s.id s hholds)]
  · exact fun u fault hu => ⟨updateMany_of_error hu, updateOne_of_error hu⟩

end VpnNode.Ledger
