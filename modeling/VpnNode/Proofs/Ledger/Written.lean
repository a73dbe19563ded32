import VpnNode.Proofs.Ledger.Rows
import VpnNode.Proofs.Session.Usage

/-!
# Rows as updates write them

On rows with numerals an update never meets a corrupt value, so what it writes can be said as
a function of the row. An operation on the ledger then comes to a function of all its rows:
the rows that it updates are written anew, and no other row changes.

Main statements:

* `Update.apply_eq_written`: an update of a row with numerals.
* `Update.validate_written`: a checked update of a checked row leaves a row that passes the
  check again.
* `Indexed.find_eq`: every look-up succeeds and finds the rows that match.
* `Indexed.updateMany_eq`, `Indexed.updateOne_eq`: updates revise the rows that match, or the
  first of them.
-/

namespace VpnNode

open Session (amount raise elapsed nanosOfDuration Counted)

namespace Ledger

/-! ## One row -/

namespace Update

/-- Does an update report usage? -/
def reportsUsage (u : Update) : Bool := u.download.isSome || u.upload.isSome

/-- The text of a counter after a report, if there is one. -/
def raised (text : String) : Option Nat → String
  | none => text
  | some n => raise (amount text) text n

/-- A row with numerals after an update. -/
def written (u : Update) (s : Session) : Session :=
  { s with
    downloadBytes := raised s.downloadBytes u.download
    uploadBytes := raised s.uploadBytes u.upload
    duration := if u.reportsUsage then nanosOfDuration (s.elapsed u.now) else s.duration
    signature := u.signature.getD s.signature
    updatedAt := u.now }

theorem raised_eq_revised (text : String) (report : Option Nat) :
    raised text report = Session.revised (amount text) text report := by
  cases report <;> rfl

theorem parse?_raised {text : String} (h : (Decimal.parse? text).isSome) (report : Option Nat) :
    (Decimal.parse? (raised text report)).isSome := by
  rw [raised_eq_revised]
  exact Option.isSome_of_eq_some (Session.parse?_revised (Session.parse?_eq_amount h) report)

/-- A report raises a counter to the larger of the two numbers. -/
theorem amount_raised {text : String} (h : (Decimal.parse? text).isSome) (report : Option Nat) :
    amount (raised text report) = report.elim (amount text) (max (amount text)) := by
  cases report with
  | none => rfl
  | some n => exact Session.amount_raise h n

/-- An update of a row with numerals. -/
theorem apply_eq_written {s : Session} (h : Counted s) (u : Update) :
    u.apply s = .ok (u.written s) := by
  have hdown := Session.parse?_eq_amount h.download
  have hup := Session.parse?_eq_amount h.upload
  unfold apply
  by_cases hnone : u.download.isNone ∧ u.upload.isNone
  · obtain ⟨hd, hu⟩ := hnone
    rw [Option.isNone_iff_eq_none] at hd hu
    simp only [Session.applyUsage, written, reportsUsage, hd, hu, raised, Option.isNone_none,
      and_self, if_true, Option.isSome_none, Bool.or_self, Bool.false_eq_true, if_false]
  · have hreports : u.reportsUsage = true := by
      unfold reportsUsage
      cases hd : u.download <;> cases hu : u.upload <;> simp_all
    rw [Session.applyUsage_of_parse? hdown hup hnone]
    simp only [written, hreports, if_true, raised_eq_revised, elapsed]

theorem fixed_written (u : Update) (s : Session) : s.Fixed (u.written s) :=
  ⟨rfl, rfl, rfl, rfl, rfl, rfl, rfl, rfl⟩

theorem counted_written {s : Session} (h : Counted s) (u : Update) : Counted (u.written s) :=
  h.apply (apply_eq_written h u)

/-- A duration is never negative. -/
theorem not_nanosOfDuration_neg (nanos : Nat) : ¬ nanosOfDuration nanos < 0 := by
  have hmax : Int64.maxValue.toInt = 9223372036854775807 := rfl
  rw [Int64.lt_iff_toInt_lt, Session.toInt_nanosOfDuration, hmax]
  show ¬ min (nanos : Int) 9223372036854775807 < 0
  omega

theorem decode_isOk_of_validate {u : Update} (h : u.validate = .ok ()) {text : String}
    (hs : u.signature = some text) : (Base64.decode text).isOk := by
  unfold validate at h
  rw [hs] at h
  dsimp only at h
  cases hdecode : Base64.decode text with
  | ok octets => rfl
  | error fault =>
    rw [hdecode] at h
    cases h

/-- A checked update of a checked row leaves a row that passes the check again. -/
theorem validate_written {u : Update} {s : Session} (hu : u.validate = .ok ())
    (hs : s.validate = .ok ()) : (u.written s).validate = .ok () := by
  obtain ⟨hid, hkey, haccount, hnode, hdownload, hupload, hquota, hduration, hmax, hsignature⟩ :=
    Session.validate_eq_ok_iff.1 hs
  refine Session.validate_eq_ok_iff.2 ⟨hid, hkey, haccount, hnode, parse?_raised hdownload _,
    parse?_raised hupload _, hquota, ?_, hmax, ?_⟩
  · show ¬ (if u.reportsUsage then nanosOfDuration (s.elapsed u.now) else s.duration) < 0
    split
    · exact not_nanosOfDuration_neg _
    · exact hduration
  · show (Base64.decode (u.signature.getD s.signature)).isOk
    cases htext : u.signature with
    | none => exact hsignature
    | some text => exact decode_isOk_of_validate hu htext

end Update

/-! ## Look-ups -/

variable {l : Ledger} {s t : Session} {id : UInt64} {f : Filter} {u : Update}

/-- A filter that fixes the id or the peer key matches only rows that have it. -/
theorem Filter.matchesRow_iff :
    f.matchesRow s ↔ (∀ id ∈ f.id, s.id = id) ∧ (∀ key ∈ f.peerKey, s.peerKey = key) ∧
      (∀ account ∈ f.accountAddress, s.accountAddress = account) ∧
      ∀ service ∈ f.service, s.service = service := by
  have hadmits : ∀ {α : Type} [DecidableEq α] (wanted : Option α) (value : α),
      Filter.admits wanted value = true ↔ ∀ w ∈ wanted, value = w := by
    intro α _ wanted value
    cases wanted with
    | none => simp [Filter.admits]
    | some w => simp [Filter.admits]
  unfold Filter.matchesRow
  rw [Bool.and_eq_true, Bool.and_eq_true, Bool.and_eq_true, hadmits, hadmits, hadmits, hadmits,
    and_assoc, and_assoc]

namespace Indexed

theorem nodup_sessions (h : l.Indexed) : l.sessions.Nodup := by
  have hids : (l.sessions.map (·.id)).Nodup := by
    rw [h.map_id_sessions]
    exact Std.ExtTreeMap.nodup_keys
  exact (List.pairwise_map.1 hids).imp fun hne heq => hne (congrArg _ heq)

/-- Where at most one row has a property, all rows that have it are that row. -/
theorem filter_sessions_eq (h : l.Indexed) {p : Session → Bool} {found : Option Session}
    (hp : ∀ s, l.Holds s.id s ∧ p s = true ↔ found = some s) :
    l.sessions.filter p = found.toList := by
  have hmem : ∀ s, s ∈ l.sessions.filter p ↔ s ∈ found.toList := fun s => by
    rw [List.mem_filter, h.mem_sessions, hp, Option.mem_toList]
  have hperm : (l.sessions.filter p).Perm found.toList :=
    (List.perm_ext_iff_of_nodup (h.nodup_sessions.filter p) (by cases found <;> simp)).2 hmem
  cases found with
  | none => exact hperm.eq_nil
  | some s => exact List.perm_singleton.1 hperm

/-- The rows that match a filter which fixes the id. -/
theorem filter_matchesRow_of_id (h : l.Indexed) (hf : f.id = some id) :
    l.sessions.filter f.matchesRow = (l.row? id).toList.filter f.matchesRow := by
  rw [← Option.toList_filter]
  refine h.filter_sessions_eq fun s => ?_
  rw [Option.filter_eq_some_iff, row?_eq_some_iff]
  refine and_congr_left fun hm => ?_
  rw [(Filter.matchesRow_iff.1 hm).1 id hf]

/-- The rows that match a filter which fixes the peer key. -/
theorem filter_matchesRow_of_peerKey (h : l.Indexed) {key : String} (hf : f.peerKey = some key) :
    l.sessions.filter f.matchesRow = (l.rowOf? key).toList.filter f.matchesRow := by
  rw [← Option.toList_filter]
  refine h.filter_sessions_eq fun s => ?_
  rw [Option.filter_eq_some_iff, h.rowOf?_eq_some_iff]
  refine and_congr_left fun hm => ?_
  exact (and_iff_left ((Filter.matchesRow_iff.1 hm).2.1 key hf)).symm

/-- Every look-up succeeds and finds the rows that match, by ascending id. -/
theorem find_eq (h : l.Indexed) (f : Filter) :
    l.find f = .ok (l.sessions.filter f.matchesRow) := by
  have hget : ∀ id, (l.get id >>= fun s => pure (s.toList.filter f.matchesRow)) =
      Except.ok ((l.row? id).toList.filter f.matchesRow) := fun id => by
    rw [h.get_eq]
    rfl
  cases hid : f.id with
  | some id =>
    have hindexed : l.indexedId f = some (some id) := by
      unfold indexedId
      rw [hid]
    rw [h.filter_matchesRow_of_id hid, find, hindexed]
    exact hget id
  | none =>
    cases hkey : f.peerKey with
    | some key =>
      have hindexed : l.indexedId f = some l.keys[key]? := by
        unfold indexedId
        rw [hid, hkey]
      rw [h.filter_matchesRow_of_peerKey hkey, find, hindexed, rowOf?]
      cases l.keys[key]? with
      | none => rfl
      | some id => exact hget id
    | none =>
      have hindexed : l.indexedId f = none := by
        unfold indexedId
        rw [hid, hkey]
      rw [find, hindexed, ← find_all, h.find_all_eq]
      rfl

end Indexed

/-! ## Updates of many rows -/

/-- Writes an update into the rows with a property. -/
def updating (u : Update) (p : Session → Bool) (s : Session) : Session :=
  if p s then u.written s else s

theorem fixed_updating (u : Update) (p : Session → Bool) (s : Session) :
    s.Fixed (updating u p s) := by
  unfold updating
  split
  · exact u.fixed_written s
  · exact .refl s

theorem Every.updating {P : Session → Prop} (h : Every P l) {p : Session → Bool}
    (hP : ∀ s, P s → P (u.written s)) : Every P (l.revise (Ledger.updating u p)) := by
  intro id t ht
  obtain ⟨s, hs, rfl⟩ := holds_revise.1 ht
  unfold Ledger.updating
  split
  · exact hP s (h id s hs)
  · exact h id s hs

theorem Indexed.updating (h : l.Indexed) (u : Update) (p : Session → Bool) :
    (l.revise (Ledger.updating u p)).Indexed :=
  h.revise (fun s => (fixed_updating u p s).id) fun s => (fixed_updating u p s).peerKey

/-- The property of the row under an id. -/
def isAt (id : UInt64) (s : Session) : Bool := s.id == id

theorem updating_isAt_of_ne (hne : s.id ≠ id) : updating u (isAt id) s = s :=
  if_neg (mt beq_iff_eq.1 hne)

/-- To update one row and then rows under other ids is to update them together. -/
theorem updating_updating {ids : List UInt64} (hid : id ∉ ids) (u : Update) (s : Session) :
    updating u (fun t => decide (t.id ∈ ids)) (updating u (isAt id) s) =
      updating u (fun t => decide (t.id ∈ id :: ids)) s := by
  by_cases heq : s.id = id
  · have hfirst : updating u (isAt id) s = u.written s := if_pos (beq_iff_eq.2 heq)
    have hboth : updating u (fun t => decide (t.id ∈ id :: ids)) s = u.written s :=
      if_pos (by simp [heq])
    rw [hfirst, hboth]
    exact if_neg (by simpa [(u.fixed_written s).id, heq] using hid)
  · rw [updating_isAt_of_ne heq]
    unfold updating
    simp only [List.mem_cons, heq, false_or]

namespace Indexed

/-- To write one row anew is to revise the rows with its id. -/
theorem insert_written_eq (h : l.Indexed) (hs : l.Holds id s) (u : Update) :
    ({ l with rows := l.rows.insert id (.row (u.written s)) } : Ledger) =
      l.revise (Ledger.updating u (isAt id)) := by
  rw [h.rewrite_eq_revise hs]
  refine revise_congr fun id' t ht => ?_
  have hiff : t.peerKey = s.peerKey ↔ isAt id t = true := by
    rw [isAt, beq_iff_eq, h.id_eq ht]
    constructor
    · exact fun hkey => (h.holds_of_key ht hs hkey).1
    · rintro rfl
      rw [ht.unique hs]
  exact ite_congr (propext hiff) (fun _ => rfl) fun _ => rfl

/-- The row under another id is as before. -/
theorem row?_updating_of_ne (h : l.Indexed) {id' : UInt64} (hne : id' ≠ id) (u : Update) :
    (l.revise (Ledger.updating u (isAt id))).row? id' = l.row? id' := by
  rw [row?_revise]
  cases hs : l.row? id' with
  | none => rfl
  | some s =>
    have hid := h.id_eq (row?_eq_some_iff.1 hs)
    rw [Option.map_some, updating_isAt_of_ne (hid ▸ hne)]

/-- A transaction writes each of the rows once. -/
theorem updateIds_eq (h : l.Indexed) (hc : l.Every Counted) {ids : List UInt64}
    (hnodup : ids.Nodup) (hrows : ∀ id ∈ ids, ∃ s, l.row? id = some s ∧ f.matchesRow s = true)
    (u : Update) :
    l.updateIds f u ids = .ok (ids.filterMap fun id => (l.row? id).map u.written,
      l.revise (Ledger.updating u fun s => decide (s.id ∈ ids))) := by
  induction ids generalizing l with
  | nil =>
    have hsame : l.revise (Ledger.updating u fun s => decide (s.id ∈ ([] : List UInt64))) = l :=
      (revise_congr fun _ s _ => if_neg (by simp)).trans (revise_self l)
    rw [hsame]
    rfl
  | cons id ids ih =>
    rw [List.nodup_cons] at hnodup
    obtain ⟨s, hs, hm⟩ := hrows id List.mem_cons_self
    have hholds := row?_eq_some_iff.1 hs
    have hother : ∀ id' ∈ ids,
        (l.revise (Ledger.updating u (isAt id))).row? id' = l.row? id' := fun id' hid' =>
      h.row?_updating_of_ne (ne_of_mem_of_not_mem hid' hnodup.1) u
    have hrest := ih (h.updating u (isAt id)) (hc.updating fun t ht => u.counted_written ht)
      hnodup.2 fun id' hid' => by
        rw [hother id' hid']
        exact hrows id' (List.mem_cons_of_mem _ hid')
    rw [revise_revise, List.filterMap_congr fun id' hid' => congrArg _ (hother id' hid')] at hrest
    simp only [updating_updating hnodup.1] at hrest
    unfold Ledger.updateIds
    rw [h.get_eq, hs]
    dsimp only
    rw [if_pos hm, Update.apply_eq_written (hc id s hholds)]
    dsimp only
    rw [h.insert_written_eq hholds, hrest, List.filterMap_cons_some (by rw [hs]; rfl)]

/-! ## Updates -/

/-- The ids of the rows that match a filter. -/
theorem matchingIds_eq (h : l.Indexed) (f : Filter) :
    l.matchingIds f = .ok ((l.sessions.filter f.matchesRow).map (·.id)) := by
  unfold matchingIds
  rw [h.find_eq]
  rfl

theorem row?_of_mem (h : l.Indexed) (hs : s ∈ l.sessions) : l.row? s.id = some s :=
  row?_eq_some_iff.2 (h.mem_sessions.1 hs)

theorem eq_of_id (h : l.Indexed) (hs : s ∈ l.sessions) (ht : t ∈ l.sessions) (hid : s.id = t.id) :
    s = t := by
  rw [h.mem_sessions] at hs ht
  rw [hid] at hs
  exact hs.unique ht

/-- To update the rows with one of two properties is the same where they are the same. -/
theorem revise_updating_congr (h : l.Indexed) {p q : Session → Bool}
    (hpq : ∀ s, l.Holds s.id s → (p s = true ↔ q s = true)) :
    l.revise (Ledger.updating u p) = l.revise (Ledger.updating u q) := by
  refine revise_congr fun id s hs => ?_
  rw [← h.id_eq hs] at hs
  exact ite_congr (propext (hpq s hs)) (fun _ => rfl) fun _ => rfl

/-- An update of every row that matches. -/
theorem updateMany_eq (h : l.Indexed) (hc : l.Every Counted) (f : Filter)
    (hu : u.validate = .ok ()) :
    l.updateMany f u = .ok ((l.sessions.filter f.matchesRow).length,
      l.revise (Ledger.updating u f.matchesRow)) := by
  have hnodup : ((l.sessions.filter f.matchesRow).map (·.id)).Nodup := by
    refine (List.filter_sublist.map _).nodup ?_
    rw [h.map_id_sessions]
    exact Std.ExtTreeMap.nodup_keys
  have hrows : ∀ id ∈ (l.sessions.filter f.matchesRow).map (·.id),
      ∃ s, l.row? id = some s ∧ f.matchesRow s = true := by
    refine List.forall_mem_map.2 fun s hs => ?_
    obtain ⟨hs, hm⟩ := List.mem_filter.1 hs
    exact ⟨s, h.row?_of_mem hs, hm⟩
  have hwritten : (((l.sessions.filter f.matchesRow).map (·.id)).filterMap fun id =>
      (l.row? id).map u.written) = (l.sessions.filter f.matchesRow).map u.written := by
    rw [List.filterMap_map, ← List.filterMap_eq_map]
    refine List.filterMap_congr fun s hs => ?_
    rw [Function.comp_apply, h.row?_of_mem (List.mem_filter.1 hs).1]
    rfl
  have hrevised : (l.revise (Ledger.updating u fun s =>
      decide (s.id ∈ (l.sessions.filter f.matchesRow).map (·.id)))) =
      l.revise (Ledger.updating u f.matchesRow) := by
    refine h.revise_updating_congr fun s hs => ?_
    rw [decide_eq_true_eq, List.mem_map]
    constructor
    · rintro ⟨t, ht, hid⟩
      obtain ⟨ht, hm⟩ := List.mem_filter.1 ht
      rwa [← h.eq_of_id ht (h.mem_sessions.2 hs) hid]
    · exact fun hm => ⟨s, List.mem_filter.2 ⟨h.mem_sessions.2 hs, hm⟩, rfl⟩
  unfold updateMany
  rw [hu, h.matchingIds_eq]
  show (Except.bind (l.updateIds f u _) fun x => _) = _
  rw [h.updateIds_eq hc hnodup hrows u, hwritten, hrevised]
  show Except.ok _ = _
  rw [List.length_map]

/-- An update of the first row that matches. -/
theorem updateOne_eq (h : l.Indexed) (hc : l.Every Counted) (f : Filter)
    (hu : u.validate = .ok ()) :
    l.updateOne f u = .ok ((l.sessions.find? f.matchesRow).map u.written,
      l.revise (Ledger.updating u fun s => decide (l.sessions.find? f.matchesRow = some s))) := by
  have hhead : ((l.sessions.filter f.matchesRow).map (·.id)).head? =
      (l.sessions.find? f.matchesRow).map (·.id) := by
    rw [List.head?_map, List.head?_filter]
  unfold updateOne
  rw [hu, h.matchingIds_eq]
  generalize (l.sessions.filter f.matchesRow).map (·.id) = ids at hhead
  cases hfirst : l.sessions.find? f.matchesRow with
  | none =>
    have hsame : l.revise (Ledger.updating u fun s => decide (none = some s)) = l :=
      (revise_congr fun _ s _ => if_neg (by simp)).trans (revise_self l)
    rw [hfirst, Option.map_none, List.head?_eq_none_iff] at hhead
    subst hhead
    rw [hsame]
    rfl
  | some s =>
    rw [hfirst, Option.map_some, List.head?_eq_some_iff] at hhead
    obtain ⟨ids, rfl⟩ := hhead
    have hmem := List.mem_of_find?_eq_some hfirst
    have hs := h.row?_of_mem hmem
    have hupdate := h.updateIds_eq hc (List.pairwise_singleton _ s.id)
      (List.forall_mem_singleton.2 ⟨s, hs, List.find?_some hfirst⟩) u
    have hrevised : (l.revise (Ledger.updating u fun t => decide (t.id ∈ [s.id]))) =
        l.revise (Ledger.updating u fun t => decide (some s = some t)) := by
      refine h.revise_updating_congr fun t ht => ?_
      rw [decide_eq_true_eq, decide_eq_true_eq, List.mem_singleton, Option.some.injEq]
      constructor
      · exact fun hid => h.eq_of_id hmem (h.mem_sessions.2 ht) hid.symm
      · rintro rfl
        rfl
    rw [hrevised] at hupdate
    show (Except.bind (l.updateIds f u [s.id]) fun x => _) = _
    rw [hupdate, List.filterMap_cons_some (by rw [hs]; rfl)]
    rfl

end Indexed

end Ledger

end VpnNode
