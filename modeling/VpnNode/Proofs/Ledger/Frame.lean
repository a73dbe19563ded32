import VpnNode.Proofs.Ledger.Index

/-!
# What transactions do to the rows that are there

An insertion keeps every row as it is. An update keeps every row under its id, with its
fixed fields. A removal adds and changes none.

Main statements:

* `Extends.insertMany`, `Extends.updateIds`: insertions and updates lose no row.
* `holds_of_deleteIds`: a row after a removal was there before.
-/

namespace VpnNode.Ledger

/-- Every row of `l` is still there in `l'`, at most with other usage. -/
def Extends (l l' : Ledger) : Prop := ∀ id s, l.Holds id s → ∃ t, l'.Holds id t ∧ s.Fixed t

theorem Extends.refl (l : Ledger) : Extends l l := fun _ s hs => ⟨s, hs, .refl s⟩

theorem Extends.trans {l₁ l₂ l₃ : Ledger} (h : Extends l₁ l₂) (h' : Extends l₂ l₃) :
    Extends l₁ l₃ := by
  intro id s hs
  obtain ⟨t, ht, hst⟩ := h id s hs
  obtain ⟨u, hu, htu⟩ := h' id t ht
  exact ⟨u, hu, hst.trans htu⟩

/-! ## Insertions and updates -/

theorem Extends.insertRow {l l' : Ledger} {s : Session} (hi : l.insertRow s = .ok l') :
    Extends l l' := by
  obtain ⟨hid, -, rfl⟩ := insertRow_eq_ok_iff.1 hi
  intro id t ht
  refine ⟨t, ?_, .refl t⟩
  have hne : s.id ≠ id := by rintro rfl; rw [Holds, hid] at ht; cases ht
  simp only [Holds, Std.ExtTreeMap.getElem?_insert, Std.compare_eq_iff_eq, hne, if_false]
  exact ht

theorem Extends.insertMany {l l' : Ledger} {ss : List Session} (hi : l.insertMany ss = .ok l') :
    Extends l l' := by
  replace hi := (insertMany_eq_ok_iff.1 hi).2
  induction ss generalizing l with
  | nil => cases hi; exact .refl _
  | cons s r ih =>
    rw [List.foldlM_cons] at hi
    obtain ⟨l₁, hs, hi⟩ := bind_eq_ok_iff.1 hi
    exact (Extends.insertRow hs).trans (ih hi)

/-- A row that is written anew keeps its fixed fields, and no other row is touched. -/
theorem Extends.rewrite {l : Ledger} {id : UInt64} {s t : Session} (hs : l.Holds id s)
    (hst : s.Fixed t) : Extends l { l with rows := l.rows.insert id (.row t) } := by
  intro id' u hu
  simp only [Holds, Std.ExtTreeMap.getElem?_insert, Std.compare_eq_iff_eq]
  by_cases he : id = id'
  · subst he
    exact ⟨t, by simp, hs.unique hu ▸ hst⟩
  · simp only [he, if_false]
    exact ⟨u, hu, .refl u⟩

theorem Extends.updateIds {l l' : Ledger} {f : Filter} {u : Update} {ids : List UInt64}
    {written : List Session} (hu : l.updateIds f u ids = .ok (written, l')) : Extends l l' := by
  induction ids generalizing l written with
  | nil => cases hu; exact .refl _
  | cons id r ih =>
    unfold Ledger.updateIds get at hu
    split at hu
    · cases hu
    · exact ih hu
    · rename_i s hs
      split at hu
      · split at hu
        · cases hu
        · rename_i t ha
          split at hu
          · cases hu
          · rename_i hr
            cases hu
            have hs : l.Holds id s := by
              revert hs
              split <;> simp_all [Holds]
            exact (Extends.rewrite hs (Update.apply_fixed ha)).trans (ih hr)
      · exact ih hu

/-! ## Removals -/

/-- A row outlasts the removal of what stands under another id. -/
theorem Holds.erase {l : Ledger} {id id' : UInt64} {s : Session} (h : l.Holds id s)
    (hne : id ≠ id') (key : String) : Holds ⟨l.rows.erase id', l.keys.erase key⟩ id s := by
  simp only [Holds, Std.ExtTreeMap.getElem?_erase, Std.compare_eq_iff_eq, hne.symm, if_false]
  exact h

/-- A row after a removal was there before. -/
theorem holds_of_deleteIds {l l' : Ledger} {ids : List UInt64} {removed : List Session}
    (hd : l.deleteIds ids = .ok (removed, l')) {id : UInt64} {s : Session} (hs : l'.Holds id s) :
    l.Holds id s := by
  induction ids generalizing l removed with
  | nil => cases hd; exact hs
  | cons id' r ih =>
    unfold Ledger.deleteIds at hd
    obtain ⟨t, -, hd⟩ := bind_eq_ok_iff.1 hd
    cases t with
    | none => exact ih hd
    | some t =>
      obtain ⟨⟨removed₁, l₁⟩, hr, hd⟩ := bind_eq_ok_iff.1 hd
      cases hd
      have := ih hr
      simp only [Holds, Std.ExtTreeMap.getElem?_erase] at this
      split at this
      · cases this
      · exact this

end VpnNode.Ledger
