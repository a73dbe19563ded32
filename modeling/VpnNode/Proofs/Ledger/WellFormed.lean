import VpnNode.Proofs.Ledger.Written
import VpnNode.Proofs.Session.Row

/-!
# Ledgers that are well formed

A session is checked before it is stored, but an update checks no more than the new
signature. Still every row passes the check at any time: what an update writes into a row
that passes it passes it again. So no value in the ledger is ever corrupt. And a row whose
times have years of four digits is read back from its stored text.

Main statements:

* `WellFormed.every_perform`: what an operation gives to the rows that it writes, all rows
  keep.
* `WellFormed.perform`, `WellFormed.after`: every operation leaves the ledger well formed.
* `WellFormed.readable`: what a row holds can be read.
* `WellFormed.eq_of_perform`: what an operation does to a row that stays.
* `reached_by_updateMany_all`: an update of all rows reaches each of them.
* `row_ofText`: the stored texts of rows are read back.
-/

namespace VpnNode.Ledger

open Session (Counted)

/-- Rows and index are inverse to each other, and every row passes the check that a session
    has to pass before it is stored. -/
structure WellFormed (l : Ledger) : Prop where
  indexed : l.Indexed
  valid : l.Every fun s => s.validate = .ok ()

/-- The update that an operation writes into a row, if it does: one that is refused writes
    nothing, and the update of one row reaches the first that matches. -/
def Operation.update? (l : Ledger) (s : Session) : Operation → Option Update
  | .updateOne f u =>
    if u.validate.isOk && decide (l.sessions.find? f.matchesRow = some s) then some u else none
  | .updateMany f u => if u.validate.isOk && f.matchesRow s then some u else none
  | _ => none

/-- Whatever an operation that passes its check writes has a property, if what it rewrites had
    it. -/
def Operation.Gives (P : Session → Prop) : Operation → Prop
  | .insert s => s.validate = .ok () → P s
  | .insertMany ss => ∀ s ∈ ss, s.validate = .ok () → P s
  | .updateOne _ u | .updateMany _ u => u.validate = .ok () → ∀ s, P s → P (u.written s)
  | .deleteOne _ | .deleteMany _ => True

variable {l l' : Ledger} {s t : Session} {id : UInt64} {f : Filter} {u : Update}
  {P : Session → Prop}

/-! ## Insertions -/

theorem Every.insertMany (h : Every P l) {ss : List Session}
    (hss : ∀ s ∈ ss, P s) (hi : l.insertMany ss = .ok l') : Every P l' := by
  replace hi := (insertMany_eq_ok_iff.1 hi).2
  induction ss generalizing l with
  | nil =>
    cases hi
    exact h
  | cons s ss ih =>
    rw [List.forall_mem_cons] at hss
    rw [List.foldlM_cons] at hi
    obtain ⟨l₁, hs, hi⟩ := bind_eq_ok_iff.1 hi
    obtain ⟨-, -, rfl⟩ := insertRow_eq_ok_iff.1 hs
    have h₁ : Every P ⟨l.rows.insert s.id (.row s), l.keys.insert s.peerKey s.id⟩ :=
      fun id t ht => h.rewrite hss.1 id t ht
    exact ih h₁ hss.2 hi

/-- An insertion leaves the rows alone that are there. -/
theorem Holds.insertMany (h : l.Holds id s) {ss : List Session} (hi : l.insertMany ss = .ok l') :
    l'.Holds id s := by
  replace hi := (insertMany_eq_ok_iff.1 hi).2
  induction ss generalizing l with
  | nil =>
    cases hi
    exact h
  | cons r ss ih =>
    rw [List.foldlM_cons] at hi
    obtain ⟨l₁, hr, hi⟩ := bind_eq_ok_iff.1 hi
    obtain ⟨hid, -, rfl⟩ := insertRow_eq_ok_iff.1 hr
    refine ih ?_ hi
    have hne : r.id ≠ id := by
      rintro rfl
      rw [Holds, hid] at h
      cases h
    simp only [Holds, Std.ExtTreeMap.getElem?_insert, Std.compare_eq_iff_eq, hne, if_false]
    exact h

/-! ## Updates -/

theorem validate_cases (u : Update) : u.validate = .ok () ∨ ∃ fault, u.validate = .error fault := by
  cases h : u.validate with
  | ok => exact .inl rfl
  | error fault => exact .inr ⟨fault, rfl⟩

theorem validate_of_update? {op : Operation} (h : op.update? l s = some u) :
    u.validate = .ok () := by
  have hok : u.validate.isOk = true := by
    cases op with
    | updateOne f u' =>
      rw [Operation.update?, Option.ite_none_right_eq_some, Bool.and_eq_true] at h
      cases h.2
      exact h.1.1
    | updateMany f u' =>
      rw [Operation.update?, Option.ite_none_right_eq_some, Bool.and_eq_true] at h
      cases h.2
      exact h.1.1
    | _ => cases h
  rcases validate_cases u with hu | ⟨fault, hu⟩
  · exact hu
  · rw [hu] at hok
    cases hok

theorem updateOne_of_error {fault : Base64.Fault} (hu : u.validate = .error fault) :
    l.updateOne f u = .error (.error (.invalidUpdate fault)) := by
  unfold updateOne
  rw [hu]
  rfl

theorem updateMany_of_error {fault : Base64.Fault} (hu : u.validate = .error fault) :
    l.updateMany f u = .error (.error (.invalidUpdate fault)) := by
  unfold updateMany
  rw [hu]
  rfl

/-- What an update leaves that is refused if it does not pass its check, and otherwise revises
    the rows with a property. -/
theorem settle_update {x : Except Failure (α × Ledger)} {p : Session → Bool} {a : α}
    (hrefused : ∀ fault, u.validate = .error fault → x = .error (.error (.invalidUpdate fault)))
    (hwritten : u.validate = .ok () → x = .ok (a, l.revise (updating u p))) :
    l.settle (x.map (·.2)) =
      l.revise fun s =>
        (if u.validate.isOk && p s then some u else none).elim s (·.written s) := by
  rcases validate_cases u with hu | ⟨fault, hu⟩
  · rw [hwritten hu, hu]
    refine revise_congr fun id s _ => ?_
    unfold updating
    cases p s <;> rfl
  · rw [hrefused fault hu, hu]
    exact (revise_self l).symm

namespace WellFormed

theorem counted (h : l.WellFormed) : l.Every Counted := fun id s hs =>
  Session.counted_of_validate (h.valid id s hs)

/-- An operation that adds and removes no row writes updates into the rows that it reaches. -/
theorem perform_update (h : l.WellFormed) {op : Operation}
    (hop : (∃ f u, op = .updateOne f u) ∨ ∃ f u, op = .updateMany f u) :
    l.perform op = l.revise fun s => (op.update? l s).elim s (·.written s) := by
  rcases hop with ⟨f, u, rfl⟩ | ⟨f, u, rfl⟩
  · exact settle_update (fun _ => updateOne_of_error) (h.indexed.updateOne_eq h.counted f)
  · exact settle_update (fun _ => updateMany_of_error) (h.indexed.updateMany_eq h.counted f)

/-! ## Operations -/

/-- What an operation gives to the rows that it writes, all rows keep. -/
theorem every_perform (h : l.WellFormed) (hP : l.Every P) {op : Operation} (hop : op.Gives P) :
    (l.perform op).Every P := by
  have hinsert : ∀ ss, (∀ s ∈ ss, s.validate = .ok () → P s) →
      (l.settle (l.insertMany ss)).Every P := fun ss hss => by
    rcases l.settle_cases (l.insertMany ss) with hsame | hi
    · rw [hsame]
      exact hP
    · have hvalid := (insertMany_eq_ok_iff.1 hi).1
      exact hP.insertMany (fun s hs => hss s hs (hvalid s hs)) hi
  have hupdate : (∀ s u, op.update? l s = some u → P s → P (u.written s)) →
      (l.revise fun s => (op.update? l s).elim s (·.written s)).Every P := fun hu id t ht => by
    obtain ⟨s, hs, rfl⟩ := holds_revise.1 ht
    cases hupdated : op.update? l s with
    | none => exact hP id s hs
    | some u => exact hu s u hupdated (hP id s hs)
  cases op with
  | insert s => exact hinsert [s] (List.forall_mem_singleton.2 hop)
  | insertMany ss => exact hinsert ss hop
  | updateOne f u =>
    rw [h.perform_update (.inl ⟨f, u, rfl⟩)]
    refine hupdate fun s u' hu' hs => ?_
    have hvalid := validate_of_update? hu'
    rw [Operation.update?, Option.ite_none_right_eq_some] at hu'
    cases hu'.2
    exact hop hvalid s hs
  | updateMany f u =>
    rw [h.perform_update (.inr ⟨f, u, rfl⟩)]
    refine hupdate fun s u' hu' hs => ?_
    have hvalid := validate_of_update? hu'
    rw [Operation.update?, Option.ite_none_right_eq_some] at hu'
    cases hu'.2
    exact hop hvalid s hs
  | deleteOne f =>
    rcases l.settle_map_cases (l.deleteOne f) with hsame | ⟨x, hx⟩
    · exact (congrArg (Every _) hsame).mpr hP
    · obtain ⟨ids, removed, hd⟩ := deleteOne_eq_ok hx
      exact hP.deleteIds hd
  | deleteMany f =>
    rcases l.settle_map_cases (l.deleteMany f) with hsame | ⟨x, hx⟩
    · exact (congrArg (Every _) hsame).mpr hP
    · obtain ⟨ids, removed, hd⟩ := deleteMany_eq_ok hx
      exact hP.deleteIds hd

theorem empty : WellFormed empty := ⟨.empty, .empty⟩

/-- An operation leaves the ledger well formed, whether it succeeds or fails. -/
theorem perform (h : l.WellFormed) (op : Operation) : (l.perform op).WellFormed := by
  refine ⟨h.indexed.perform op, h.every_perform h.valid ?_⟩
  cases op with
  | insert s => exact id
  | insertMany ss => exact fun _ _ => id
  | updateOne f u => exact fun hu _ hs => u.validate_written hu hs
  | updateMany f u => exact fun hu _ hs => u.validate_written hu hs
  | deleteOne f => trivial
  | deleteMany f => trivial

/-- What each of some operations gives, all rows have after them. -/
theorem every_foldl_perform (h : l.WellFormed) (hP : l.Every P) {ops : List Operation}
    (hops : ∀ op ∈ ops, op.Gives P) : (ops.foldl Ledger.perform l).Every P := by
  induction ops generalizing l with
  | nil => exact hP
  | cons op ops ih =>
    obtain ⟨hop, hops⟩ := List.forall_mem_cons.1 hops
    exact ih (h.perform op) (h.every_perform hP hop) hops

/-- So does any sequence of operations. -/
theorem foldl_perform (h : l.WellFormed) (ops : List Operation) :
    (ops.foldl Ledger.perform l).WellFormed := by
  induction ops generalizing l with
  | nil => exact h
  | cons op ops ih => exact ih (h.perform op)

theorem after (ops : List Operation) : (Ledger.after ops).WellFormed := empty.foldl_perform ops

/-- An operation that adds or removes rows leaves a row that stays as it is; an update writes
    into the rows that it reaches. -/
theorem eq_of_perform (h : l.WellFormed) {op : Operation} (hs : l.Holds id s)
    (ht : (l.perform op).Holds id t) : t = (op.update? l s).elim s (·.written s) := by
  have hinsert : ∀ ss, (l.settle (l.insertMany ss)).Holds id s := fun ss => by
    rcases l.settle_cases (l.insertMany ss) with hsame | hi
    · rw [hsame]
      exact hs
    · exact hs.insertMany hi
  have hupdate : l.perform op = (l.revise fun s => (op.update? l s).elim s (·.written s)) →
      t = (op.update? l s).elim s (·.written s) := fun hop => by
    rw [hop] at ht
    exact (holds_revise.2 ⟨s, hs, rfl⟩ : (l.revise _).Holds id _).unique ht |>.symm
  cases op with
  | insert r => exact ht.unique (hinsert [r])
  | insertMany ss => exact ht.unique (hinsert ss)
  | updateOne f u => exact hupdate (h.perform_update (.inl ⟨f, u, rfl⟩))
  | updateMany f u => exact hupdate (h.perform_update (.inr ⟨f, u, rfl⟩))
  | deleteOne f =>
    rcases l.settle_map_cases (l.deleteOne f) with hsame | ⟨x, hx⟩
    · exact ((congrArg (Holds · id t) hsame).mp ht).unique hs
    · obtain ⟨ids, removed, hd⟩ := deleteOne_eq_ok hx
      exact (holds_of_deleteIds hd ht).unique hs
  | deleteMany f =>
    rcases l.settle_map_cases (l.deleteMany f) with hsame | ⟨x, hx⟩
    · exact ((congrArg (Holds · id t) hsame).mp ht).unique hs
    · obtain ⟨ids, removed, hd⟩ := deleteMany_eq_ok hx
      exact (holds_of_deleteIds hd ht).unique hs

/-! ## Nothing is corrupt -/

theorem updateOne_ne_corrupt (h : l.WellFormed) (f : Filter) (u : Update)
    (c : Session.Corruption) : l.updateOne f u ≠ .error (.corrupt c) := by
  rcases validate_cases u with hu | ⟨fault, hu⟩
  · rw [h.indexed.updateOne_eq h.counted f hu]
    nofun
  · rw [updateOne_of_error hu]
    nofun

theorem updateMany_ne_corrupt (h : l.WellFormed) (f : Filter) (u : Update)
    (c : Session.Corruption) : l.updateMany f u ≠ .error (.corrupt c) := by
  rcases validate_cases u with hu | ⟨fault, hu⟩
  · rw [h.indexed.updateMany_eq h.counted f hu]
    nofun
  · rw [updateMany_of_error hu]
    nofun

/-- What a row holds can be read. -/
theorem readable (h : l.WellFormed) (hs : l.Holds id s) :
    s.bytes.isOk ∧ s.byteQuota.isOk ∧ s.signatureOctets.isOk ∧ s.isOverQuota.isOk ∧
      s.usageReport.isOk := by
  have hcounted := h.counted id s hs
  obtain ⟨-, -, -, -, -, -, -, -, -, hsignature⟩ := Session.validate_eq_ok_iff.1 (h.valid id s hs)
  refine ⟨?_, ?_, ?_, ?_, ?_⟩
  · rw [Session.bytes_eq hcounted]
    rfl
  · rw [Session.byteQuota_eq hcounted]
    rfl
  · unfold Session.signatureOctets
    cases hdecode : Base64.decode s.signature with
    | ok octets => rfl
    | error fault =>
      rw [hdecode] at hsignature
      cases hsignature
  · rw [Session.isOverQuota_eq hcounted]
    rfl
  · rw [Session.usageReport_eq hcounted]
    rfl

end WellFormed

/-! ## Certain operations -/

/-- An update of all rows reaches each of them. -/
theorem reached_by_updateMany_all (h : l.WellFormed) (hs : l.Holds id s)
    (hu : u.validate = .ok ()) :
    (l.perform (.updateMany .all u)).Holds id (u.written s) ∧
      (l.row? id).bind (fun s => (Operation.updateMany .all u).update? l s) = some u := by
  have hreaches : ∀ t, (Operation.updateMany .all u).update? l t = some u := fun t => by
    show (if u.validate.isOk && true then some u else none) = some u
    rw [hu]
    rfl
  rw [h.perform_update (.inr ⟨.all, u, rfl⟩), row?_eq_some_iff.2 hs]
  exact ⟨holds_revise.2 ⟨s, hs, by rw [hreaches]; rfl⟩, hreaches s⟩

/-- A row that passes its check is stored in an empty ledger. -/
theorem holds_perform_insert (h : s.validate = .ok ()) :
    (empty.perform (.insert s)).Holds s.id s := by
  have hinsert : empty.insert s = .ok _ :=
    insert_eq_ok_iff.2 ⟨h, Std.ExtTreeMap.getElem?_empty, Std.ExtTreeMap.getElem?_empty, rfl⟩
  show (empty.settle (empty.insert s)).Holds s.id s
  rw [hinsert]
  exact holds_of_insert hinsert

/-! ## Stored texts -/

/-- All times that an operation writes have a property. -/
def Operation.Timed (p : Time → Prop) : Operation → Prop
  | .insert s => p s.createdAt ∧ p s.updatedAt
  | .insertMany ss => ∀ s ∈ ss, p s.createdAt ∧ p s.updatedAt
  | .updateOne _ u | .updateMany _ u => p u.now
  | .deleteOne _ | .deleteMany _ => True

/-- What an operation writes has its times. -/
theorem Operation.Timed.gives {p : Time → Prop} {op : Operation} (h : op.Timed p) :
    op.Gives fun s => p s.createdAt ∧ p s.updatedAt := by
  cases op with
  | insert s => exact fun _ => h
  | insertMany ss => exact fun s hs _ => h s hs
  | updateOne f u => exact fun _ _ hs => ⟨hs.1, h⟩
  | updateMany f u => exact fun _ _ hs => ⟨hs.1, h⟩
  | deleteOne f => trivial
  | deleteMany f => trivial

theorem timed_after {p : Time → Prop} {ops : List Operation} (hops : ∀ op ∈ ops, op.Timed p) :
    (after ops).Every fun s => p s.createdAt ∧ p s.updatedAt :=
  WellFormed.empty.every_foldl_perform .empty fun op hop => (hops op hop).gives

/-- The stored texts of rows are read back. -/
theorem row_ofText {ops : List Operation} (hops : ∀ op ∈ ops, op.Timed Time.IsPlain)
    (hs : (after ops).Holds id s) : Entry.ofText s.encode = .row s := by
  obtain ⟨hcreated, hupdated⟩ := timed_after hops id s hs
  unfold Entry.ofText
  rw [Session.decode?_encode hcreated hupdated]

/-- The stored texts of rows can be read. -/
theorem ofText_ne_unreadable {ops : List Operation} (hops : ∀ op ∈ ops, op.Timed Time.IsCommon)
    (hs : (after ops).Holds id s) : Entry.ofText s.encode ≠ .unreadable := by
  obtain ⟨hcreated, hupdated⟩ := timed_after hops id s hs
  obtain ⟨t, ht⟩ := Session.exists_decode?_encode hcreated hupdated
  unfold Entry.ofText
  rw [ht]
  nofun

end VpnNode.Ledger
