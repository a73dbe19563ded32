import VpnNode.Proofs.Ledger.WellFormed

/-!
# Batches of rows

Several rows are stored in one transaction. Each is held against the ledger as the rows before
it have left it, so that two sessions of one batch can collide as well; then the transaction
is given up, and what it has written so far is lost.

Main statements:

* `Indexed.insertRows_eq_error_iff`: which collision ends a transaction.
* `Indexed.exists_insertRows_iff`: which sessions can be stored together.
* `insertMany_all_or_nothing`: when a batch is stored, what the ledger is then, and why it is
  refused otherwise.
-/

namespace VpnNode.Ledger

variable {α : Type} {field : Session → α} {l l' : Ledger} {s t r : Session}
  {ss earlier : List Session} {e : Error} {id : UInt64}

/-! ## Collisions -/

/-- A row has the same value of a field as a session, or an earlier session of the batch
    has. -/
def Taken (field : Session → α) (l : Ledger) (earlier : List Session) (s : Session) : Prop :=
  (∃ id t, l.Holds id t ∧ field t = field s) ∨ ∃ t ∈ earlier, field t = field s

/-- The sessions of a batch have different values of a field, and no row has one of them. -/
structure Fresh (field : Session → α) (l : Ledger) (ss : List Session) : Prop where
  nodup : (ss.map field).Nodup
  unused : ∀ s ∈ ss, ∀ id t, l.Holds id t → field t ≠ field s

/-- Neither the ids nor the peer keys of a batch stand in the way. -/
def Insertable (l : Ledger) (ss : List Session) : Prop :=
  Fresh (·.id) l ss ∧ Fresh (·.peerKey) l ss

/-- A session collides with a row or with an earlier session of the batch. The id is reported
    before the peer key. -/
inductive Collides (l : Ledger) (earlier : List Session) (s : Session) : Error → Prop where
  | id (h : Taken (·.id) l earlier s) :
    Collides l earlier s (.duplicate "id" (Decimal.render s.id.toNat))
  | peerKey (h : ¬ Taken (·.id) l earlier s) (h' : Taken (·.peerKey) l earlier s) :
    Collides l earlier s (.duplicate "peer_key" s.peerKey)

/-- The error is that of the first session that does not pass its check. -/
def FirstInvalid (ss : List Session) (e : Error) : Prop :=
  ∃ before s after fault, ss = before ++ s :: after ∧ (∀ r ∈ before, r.validate = .ok ()) ∧
    s.validate = .error fault ∧ e = .invalid fault

/-- The error is that of the first session that collides. -/
def FirstCollision (l : Ledger) (ss : List Session) (e : Error) : Prop :=
  ∃ before s after, ss = before ++ s :: after ∧ Insertable l before ∧ Collides l before s e

/-! ## One row more -/

/-- A ledger with one row more. -/
def withRow (l : Ledger) (s : Session) : Ledger :=
  ⟨l.rows.insert s.id (.row s), l.keys.insert s.peerKey s.id⟩

theorem holds_withRow :
    (l.withRow s).Holds id t ↔ s.id = id ∧ s = t ∨ s.id ≠ id ∧ l.Holds id t := by
  simp only [withRow, Holds, Std.ExtTreeMap.getElem?_insert, Std.compare_eq_iff_eq]
  split <;> simp_all

section WithRow

variable (hr : ∀ t, ¬ l.Holds r.id t)

include hr

theorem holds_withRow_of_free :
    (l.withRow r).Holds id t ↔ r.id = id ∧ r = t ∨ l.Holds id t := by
  rw [holds_withRow]
  refine or_congr_right (and_iff_right_of_imp ?_)
  rintro ht rfl
  exact hr t ht

/-- A row has a value that was taken before, or its own. -/
theorem exists_holds_withRow_iff {x : α} :
    (∃ id t, (l.withRow r).Holds id t ∧ field t = x) ↔
      (∃ id t, l.Holds id t ∧ field t = x) ∨ field r = x := by
  simp only [holds_withRow_of_free hr]
  constructor
  · rintro ⟨id, t, ⟨-, rfl⟩ | ht, hx⟩
    · exact .inr hx
    · exact .inl ⟨id, t, ht, hx⟩
  · rintro (⟨id, t, ht, hx⟩ | hx)
    · exact ⟨id, t, .inr ht, hx⟩
    · exact ⟨r.id, r, .inl ⟨rfl, rfl⟩, hx⟩

theorem taken_withRow_iff : Taken field (l.withRow r) earlier s ↔ Taken field l (r :: earlier) s := by
  unfold Taken
  rw [exists_holds_withRow_iff hr, or_assoc]
  simp

theorem collides_withRow_iff :
    Collides (l.withRow r) earlier s e ↔ Collides l (r :: earlier) s e := by
  constructor
  · rintro (h | ⟨h, h'⟩)
    · exact .id ((taken_withRow_iff hr).1 h)
    · exact .peerKey (mt (taken_withRow_iff hr).2 h) ((taken_withRow_iff hr).1 h')
  · rintro (h | ⟨h, h'⟩)
    · exact .id ((taken_withRow_iff hr).2 h)
    · exact .peerKey (mt (taken_withRow_iff hr).1 h) ((taken_withRow_iff hr).2 h')

/-- What is fresh beside a row is fresh together with it. -/
theorem fresh_withRow_iff (hfree : ¬ Taken field l [] r) :
    Fresh field (l.withRow r) ss ↔ Fresh field l (r :: ss) := by
  have hrow : ∀ s, (∀ id t, (l.withRow r).Holds id t → field t ≠ field s) ↔
      (∀ id t, l.Holds id t → field t ≠ field s) ∧ field r ≠ field s := by
    intro s
    have htaken : (∃ id t, (l.withRow r).Holds id t ∧ field t = field s) ↔
        (∃ id t, l.Holds id t ∧ field t = field s) ∨ field r = field s :=
      exists_holds_withRow_iff hr
    simpa only [not_or, not_exists, not_and] using not_congr htaken
  have hhead : ∀ id t, l.Holds id t → field t ≠ field r :=
    fun id t ht he => hfree (.inl ⟨id, t, ht, he⟩)
  constructor
  · rintro ⟨hnodup, hunused⟩
    refine ⟨?_, List.forall_mem_cons.2 ⟨hhead, fun s hs => ((hrow s).1 (hunused s hs)).1⟩⟩
    rw [List.map_cons, List.nodup_cons]
    refine ⟨fun hmem => ?_, hnodup⟩
    obtain ⟨s, hs, he⟩ := List.mem_map.1 hmem
    exact ((hrow s).1 (hunused s hs)).2 he.symm
  · rintro ⟨hnodup, hunused⟩
    rw [List.map_cons, List.nodup_cons] at hnodup
    refine ⟨hnodup.2, fun s hs => (hrow s).2 ⟨?_, fun he => hnodup.1 ?_⟩⟩
    · exact hunused s (List.mem_cons_of_mem _ hs)
    · exact List.mem_map.2 ⟨s, hs, he.symm⟩

end WithRow

/-! ## All rows of a batch -/

theorem fresh_nil (field : Session → α) (l : Ledger) : Fresh field l [] :=
  ⟨List.nodup_nil, fun _ hs => absurd hs List.not_mem_nil⟩

/-- A batch of sessions that are fresh begins with one that is. -/
theorem Fresh.not_taken (h : Fresh field l (r :: ss)) : ¬ Taken field l [] r := by
  rintro (⟨id, t, ht, he⟩ | ⟨t, ht, -⟩)
  · exact h.unused r List.mem_cons_self id t ht he
  · exact List.not_mem_nil ht

theorem Insertable.not_collides (h : Insertable l (r :: ss)) : ¬ Collides l [] r e := by
  rintro (htaken | ⟨-, htaken⟩)
  · exact h.1.not_taken htaken
  · exact h.2.not_taken htaken

namespace Indexed

/-- A row is stored if it collides with none; otherwise the collision is the error. -/
theorem insertRow_cases (h : l.Indexed) (r : Session) :
    (∃ e, Collides l [] r e ∧ l.insertRow r = .error e) ∨
    (∀ t, ¬ l.Holds r.id t) ∧ ¬ Taken (·.id) l [] r ∧ ¬ Taken (·.peerKey) l [] r ∧
      (l.withRow r).Indexed ∧ l.insertRow r = .ok (l.withRow r) := by
  have hid : Taken (·.id) l [] r ↔ l.rows[r.id]? ≠ none := by
    rw [ne_eq, h.getElem?_eq_none_iff, not_forall_not]
    constructor
    · rintro (⟨id, t, ht, he⟩ | ⟨t, ht, -⟩)
      · have hid : id = r.id := (h.id_eq ht).symm.trans he
        exact ⟨t, hid ▸ ht⟩
      · exact absurd ht List.not_mem_nil
    · rintro ⟨t, ht⟩
      exact .inl ⟨r.id, t, ht, h.id_eq ht⟩
  have hkey : Taken (·.peerKey) l [] r ↔ l.keys[r.peerKey]? ≠ none := by
    rw [ne_eq, h.keys_getElem?_eq_none_iff]
    simp [Taken]
  unfold insertRow
  simp only [Std.ExtTreeMap.contains_eq_isSome_getElem?, Option.isSome_iff_ne_none]
  by_cases hrow : l.rows[r.id]? = none
  · have hfree : ¬ Taken (·.id) l [] r := fun htaken => hid.1 htaken hrow
    by_cases hindex : l.keys[r.peerKey]? = none
    · have hfree' : ¬ Taken (·.peerKey) l [] r := fun htaken => hkey.1 htaken hindex
      refine .inr ⟨h.getElem?_eq_none_iff.1 hrow, hfree, hfree', h.add hrow hindex, ?_⟩
      rw [if_neg (not_not.2 hrow), if_neg (not_not.2 hindex)]
      rfl
    · refine .inl ⟨_, .peerKey hfree (hkey.2 hindex), ?_⟩
      rw [if_neg (not_not.2 hrow), if_pos hindex]
  · refine .inl ⟨_, .id (hid.2 hrow), ?_⟩
    rw [if_pos hrow]

/-- The first session that collides ends a transaction. -/
theorem insertRows_eq_error_iff (h : l.Indexed) :
    ss.foldlM insertRow l = .error e ↔ FirstCollision l ss e := by
  induction ss generalizing l with
  | nil =>
    constructor
    · intro he
      cases he
    · rintro ⟨before, s, after, hss, -⟩
      simp at hss
  | cons r ss ih =>
    rw [List.foldlM_cons]
    obtain ⟨e', hcollides, hr⟩ | ⟨hfree, hid, hkey, hi, hr⟩ := h.insertRow_cases r
    · rw [hr]
      constructor
      · intro he
        cases he
        exact ⟨[], r, ss, rfl, ⟨fresh_nil _ l, fresh_nil _ l⟩, hcollides⟩
      · rintro ⟨_ | ⟨r', before⟩, s, after, hss, hbefore, hs⟩
        · obtain ⟨rfl, rfl⟩ := List.cons.inj hss
          obtain htaken | ⟨hnot, htaken⟩ := hs <;> obtain htaken' | ⟨hnot', -⟩ := hcollides
          · rfl
          · exact absurd htaken hnot'
          · exact absurd htaken' hnot
          · rfl
        · obtain ⟨rfl, rfl⟩ := List.cons.inj hss
          exact absurd hcollides hbefore.not_collides
    · rw [hr]
      refine (ih hi).trans ?_
      constructor
      · rintro ⟨before, s, after, rfl, hbefore, hs⟩
        refine ⟨r :: before, s, after, rfl, ⟨?_, ?_⟩, (collides_withRow_iff hfree).1 hs⟩
        · exact (fresh_withRow_iff hfree hid).1 hbefore.1
        · exact (fresh_withRow_iff hfree hkey).1 hbefore.2
      · rintro ⟨_ | ⟨r', before⟩, s, after, hss, hbefore, hs⟩
        · obtain ⟨rfl, rfl⟩ := List.cons.inj hss
          obtain htaken | ⟨-, htaken⟩ := hs
          · exact absurd htaken hid
          · exact absurd htaken hkey
        · obtain ⟨rfl, rfl⟩ := List.cons.inj hss
          refine ⟨before, s, after, rfl, ⟨?_, ?_⟩, (collides_withRow_iff hfree).2 hs⟩
          · exact (fresh_withRow_iff hfree hid).2 hbefore.1
          · exact (fresh_withRow_iff hfree hkey).2 hbefore.2

/-- Sessions are stored together if neither their ids nor their peer keys stand in the way. -/
theorem exists_insertRows_iff (h : l.Indexed) :
    (∃ l', ss.foldlM insertRow l = .ok l') ↔ Insertable l ss := by
  induction ss generalizing l with
  | nil => exact ⟨fun _ => ⟨fresh_nil _ l, fresh_nil _ l⟩, fun _ => ⟨l, rfl⟩⟩
  | cons r ss ih =>
    rw [List.foldlM_cons]
    obtain ⟨e, hcollides, hr⟩ | ⟨hfree, hid, hkey, hi, hr⟩ := h.insertRow_cases r
    · rw [hr]
      constructor
      · rintro ⟨l', hl'⟩
        cases hl'
      · intro hss
        exact absurd hcollides hss.not_collides
    · rw [hr]
      refine (ih hi).trans ?_
      exact and_congr (fresh_withRow_iff hfree hid) (fresh_withRow_iff hfree hkey)

/-- Then the rows are those from before and the sessions of the batch. -/
theorem holds_insertRows_iff (h : l.Indexed) (hl' : ss.foldlM insertRow l = .ok l') :
    l'.Holds id t ↔ l.Holds id t ∨ t ∈ ss ∧ t.id = id := by
  induction ss generalizing l with
  | nil =>
    cases hl'
    simp
  | cons r ss ih =>
    rw [List.foldlM_cons] at hl'
    obtain ⟨e, -, hr⟩ | ⟨hfree, -, -, hi, hr⟩ := h.insertRow_cases r
    · rw [hr] at hl'
      cases hl'
    · rw [hr] at hl'
      rw [ih hi hl', holds_withRow_of_free hfree, List.mem_cons]
      constructor
      · rintro ((⟨hid, rfl⟩ | ht) | ⟨ht, hid⟩)
        · exact .inr ⟨.inl rfl, hid⟩
        · exact .inl ht
        · exact .inr ⟨.inr ht, hid⟩
      · rintro (ht | ⟨rfl | ht, hid⟩)
        · exact .inl (.inr ht)
        · exact .inl (.inl ⟨hid, rfl⟩)
        · exact .inr ⟨ht, hid⟩

end Indexed

/-! ## The check -/

/-- The first session that does not pass its check ends the check of a batch. -/
theorem forM_validate_eq_error_iff :
    (ss.forM fun s => s.validate.mapError Error.invalid) = .error e ↔ FirstInvalid ss e := by
  induction ss with
  | nil =>
    constructor
    · intro he
      cases he
    · rintro ⟨before, s, after, fault, hss, -⟩
      simp at hss
  | cons r ss ih =>
    simp only [List.forM_eq_forM] at ih ⊢
    rw [List.forM_cons]
    cases hr : r.validate with
    | error fault =>
      constructor
      · intro he
        cases he
        exact ⟨[], r, ss, fault, rfl, List.forall_mem_nil _, hr, rfl⟩
      · rintro ⟨_ | ⟨r', before⟩, s, after, fault', hss, hbefore, hs, rfl⟩
        · obtain ⟨rfl, rfl⟩ := List.cons.inj hss
          rw [hr] at hs
          cases hs
          rfl
        · obtain ⟨rfl, rfl⟩ := List.cons.inj hss
          rw [(List.forall_mem_cons.1 hbefore).1] at hr
          cases hr
    | ok x =>
      refine ih.trans ?_
      constructor
      · rintro ⟨before, s, after, fault, rfl, hbefore, hs⟩
        exact ⟨r :: before, s, after, fault, rfl, List.forall_mem_cons.2 ⟨hr, hbefore⟩, hs⟩
      · rintro ⟨_ | ⟨r', before⟩, s, after, fault, hss, hbefore, hs, he⟩
        · obtain ⟨rfl, rfl⟩ := List.cons.inj hss
          rw [hr] at hs
          cases hs
        · obtain ⟨rfl, rfl⟩ := List.cons.inj hss
          exact ⟨before, s, after, fault, rfl, (List.forall_mem_cons.1 hbefore).2, hs, he⟩

/-! ## Batches -/

/-- After any operations, a batch is stored exactly if every session in it passes its check,
    their ids and their peer keys are different from each other, and no row has one of them.
    Then the rows are those from before and the sessions of the batch, each under its id.
    Otherwise the ledger stays as it is, rows and index. The error is that of the first session
    that does not pass its check; if all pass, it names the first session that collides with a
    row or with a session before it, by its id, or else by its peer key. -/
theorem insertMany_all_or_nothing (ops : List Operation) (ss : List Session) :
    (((after ops).insertMany ss).isOk ↔
      (∀ s ∈ ss, s.validate = .ok ()) ∧ Insertable (after ops) ss) ∧
    (∀ l', (after ops).insertMany ss = .ok l' → after (ops ++ [.insertMany ss]) = l' ∧
      l'.Indexed ∧ ∀ id t, l'.Holds id t ↔ (after ops).Holds id t ∨ t ∈ ss ∧ t.id = id) ∧
    ∀ e, (after ops).insertMany ss = .error e → after (ops ++ [.insertMany ss]) = after ops ∧
      (FirstInvalid ss e ∨
        (∀ s ∈ ss, s.validate = .ok ()) ∧ FirstCollision (after ops) ss e) := by
  have h := Indexed.after ops
  have happ : after (ops ++ [.insertMany ss]) =
      (after ops).settle ((after ops).insertMany ss) := by
    simp only [after, List.foldl_append, List.foldl_cons, List.foldl_nil, perform]
  rw [happ]
  generalize after ops = l at h
  refine ⟨?_, ?_, ?_⟩
  · rw [isOk_iff, ← h.exists_insertRows_iff]
    simp only [insertMany_eq_ok_iff, exists_and_left]
  · intro l' hl'
    have hrows := (insertMany_eq_ok_iff.1 hl').2
    rw [hl']
    exact ⟨rfl, h.insertMany hl', fun id t => h.holds_insertRows_iff hrows⟩
  · intro e he
    rw [he]
    refine ⟨rfl, ?_⟩
    unfold insertMany at he
    cases hcheck : ss.forM fun (s : Session) => s.validate.mapError Error.invalid with
    | error e' =>
      rw [hcheck] at he
      cases he
      exact .inl (forM_validate_eq_error_iff.1 hcheck)
    | ok x =>
      rw [hcheck] at he
      exact .inr ⟨forM_validate_eq_ok_iff.1 hcheck, h.insertRows_eq_error_iff.1 he⟩

end VpnNode.Ledger
