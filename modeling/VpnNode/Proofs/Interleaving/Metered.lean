import Mathlib.Logic.Function.Basic
import VpnNode.Proofs.Interleaving.Basic
import VpnNode.Proofs.Interleaving.Duty
import VpnNode.Proofs.Ledger.History
import VpnNode.Proofs.Ledger.Lookup
import VpnNode.Proofs.Simulation.Run

/-!
# Every peer has a row, or is owed one

What holds of ledger, backend and duties between any two requests: a connected peer has a
row, unless the task that connected it last still owes it one. For an alignment two more
things hold: the rows that it has read are still there, and the peer that it has seen gone
is back only if a task owes it a row. Together they say that a deletion takes the row of
no peer but one that is owed another.

Main statements:

* `Metered.careful`: the invariant outlasts every answer that loses no row.
* `Metered.deleteRow`: it outlasts the deletion of a row.
* `Metered.answer`: it outlasts every answer to a request that the duty allows.
-/

namespace VpnNode.Interleaving

open Simulation (World)

/-- The key stands in a row. -/
def Stored (l : Ledger) (key : String) : Prop := ∃ id s, l.Holds id s ∧ s.peerKey = key

/-- The task that connected the key last owes it a row. -/
def Owed (c : String → Option Nat) (duty : Nat → Duty) (key : String) : Prop :=
  ∃ k, c key = some k ∧ (duty k).owes = some key

/-- The key is the canonical one of an identity. -/
def Canonical (service : Service) (key : String) : Prop :=
  ∃ i, Peer.Identity.ofKey service key = .ok i ∧ i.key = key

/-- The invariant; `aligning` are the alignments in flight. -/
structure Metered (service : Service) (w : World) (c : String → Option Nat) (duty : Nat → Duty)
    (aligning : Nat → Prop) : Prop where
  indexed : w.ledger.Indexed
  faultless : w.faults = []
  service_eq : w.table.service = service
  canonical : ∀ {key}, w.table.contains key → Canonical service key
  covered : ∀ {key}, w.table.contains key → Stored w.ledger key ∨ Owed c duty key
  recalled : ∀ {k s}, aligning k → s ∈ (duty k).known →
    ∃ t, w.ledger.Holds s.id t ∧ t.peerKey = s.peerKey
  severed : ∀ {k s i}, aligning k → s ∈ (duty k).known → (duty k).gone = some i →
    Peer.Identity.ofKey service s.peerKey = .ok i → w.table.contains s.peerKey →
    Owed c duty s.peerKey

/-- An answer to the task `k`, whose duty was `d` and is `d'`, that loses no row: a peer
    that it connects is owed a row, and a debt ends only with a new row or with the peer. -/
structure Careful (service : Service) (k : Nat) (w w' : World) (c c' : String → Option Nat)
    (d d' : Duty) : Prop where
  indexed : w'.ledger.Indexed
  faultless : w'.faults = []
  service_eq : w'.table.service = service
  keeps : w.ledger.Extends w'.ledger
  connects : ∀ {key}, w'.table.contains key → w.table.contains key ∧ c' key = c key ∨
    c' key = some k ∧ d'.owes = some key ∧ Canonical service key
  settles : ∀ {key}, w'.table.contains key → d.owes = some key →
    d'.owes = some key ∨ Stored w'.ledger key ∧ ¬ Stored w.ledger key
  recalls : ∀ s ∈ d'.known, s ∈ d.known ∨ ∃ t, w'.ledger.Holds s.id t ∧ t.peerKey = s.peerKey
  severs : ∀ {i}, d'.gone = some i →
    w'.table.contains i.key = false ∨ d'.known = d.known ∧ d.gone = some i

variable {service : Service} {w w' : World} {c c' : String → Option Nat} {duty : Nat → Duty}
  {aligning : Nat → Prop} {k : Nat} {key : String} {d d' : Duty}

theorem Stored.extends {l l' : Ledger} (h : Stored l key) (he : l.Extends l') : Stored l' key := by
  obtain ⟨id, s, hs, hkey⟩ := h
  obtain ⟨t, ht, hfixed⟩ := he id s hs
  exact ⟨id, t, ht, hfixed.peerKey.trans hkey⟩

/-- A debt outlasts an answer to a task that keeps its own. -/
theorem Owed.update (h : Owed c duty key) (hc : c' key = c key)
    (hd : (duty k).owes = some key → d'.owes = some key) :
    Owed c' (Function.update duty k d') key := by
  obtain ⟨j, hj, howes⟩ := h
  refine ⟨j, hc.trans hj, ?_⟩
  by_cases hjk : j = k
  · subst hjk
    rw [Function.update_self]
    exact hd howes
  · rw [Function.update_of_ne hjk]
    exact howes

namespace Metered

/-- After a careful answer an old debt stands, or its key has got a row. -/
theorem owed_or_stored (hs : Careful service k w w' c c' (duty k) d') (h : Owed c duty key)
    (hkey : w'.table.contains key) (hc : c' key = c key) :
    Owed c' (Function.update duty k d') key ∨ Stored w'.ledger key ∧ ¬ Stored w.ledger key := by
  by_cases hd : (duty k).owes = some key → d'.owes = some key
  · exact .inl (h.update hc hd)
  · obtain ⟨hold, hnew⟩ := Classical.not_imp.1 hd
    exact .inr ((hs.settles hkey hold).resolve_left hnew)

/-- The invariant outlasts every answer that loses no row. -/
theorem careful (h : Metered service w c duty aligning)
    (hs : Careful service k w w' c c' (duty k) d') :
    Metered service w' c' (Function.update duty k d') aligning where
  indexed := hs.indexed
  faultless := hs.faultless
  service_eq := hs.service_eq
  canonical hkey := by
    obtain ⟨hold, -⟩ | ⟨-, -, hcanonical⟩ := hs.connects hkey
    · exact h.canonical hold
    · exact hcanonical
  covered {key} hkey := by
    obtain ⟨hold, hc⟩ | ⟨hc, howes, -⟩ := hs.connects hkey
    · obtain hstored | howed := h.covered hold
      · exact .inl (hstored.extends hs.keeps)
      · exact (owed_or_stored hs howed hkey hc).symm.imp_left And.left
    · exact .inr ⟨k, hc, by rw [Function.update_self]; exact howes⟩
  recalled {j s} hj hs' := by
    have hkeep : s ∈ (duty j).known → ∃ t, w'.ledger.Holds s.id t ∧ t.peerKey = s.peerKey := by
      intro hknown
      obtain ⟨t, ht, hkey⟩ := h.recalled hj hknown
      obtain ⟨u, hu, hfixed⟩ := hs.keeps s.id t ht
      exact ⟨u, hu, hfixed.peerKey.trans hkey⟩
    by_cases hjk : j = k
    · subst hjk
      rw [Function.update_self] at hs'
      exact (hs.recalls s hs').elim hkeep id
    · rw [Function.update_of_ne hjk] at hs'
      exact hkeep hs'
  severed {j s i} hj hs' hgone hi hkey := by
    -- If the session was known before and its peer was seen gone before, then its row is
    -- still there, and no other row with its key can have been added.
    have hkeep : s ∈ (duty j).known → (duty j).gone = some i →
        Owed c' (Function.update duty k d') s.peerKey := by
      intro hknown hgone
      obtain ⟨hold, hc⟩ | ⟨hc, howes, -⟩ := hs.connects hkey
      · obtain howed | ⟨-, hnot⟩ :=
          owed_or_stored hs (h.severed hj hknown hgone hi hold) hkey hc
        · exact howed
        · obtain ⟨t, ht, htkey⟩ := h.recalled hj hknown
          exact absurd ⟨s.id, t, ht, htkey⟩ hnot
      · exact ⟨k, hc, by rw [Function.update_self]; exact howes⟩
    by_cases hjk : j = k
    · subst hjk
      rw [Function.update_self] at hs' hgone
      obtain hno | ⟨hknown, hgone'⟩ := hs.severs hgone
      · -- The identity of the session has the key of the session, which is connected.
        have hcanonical : Canonical service s.peerKey := by
          obtain ⟨hold, -⟩ | ⟨-, -, hcanonical⟩ := hs.connects hkey
          · exact h.canonical hold
          · exact hcanonical
        obtain ⟨i', hi', hkey'⟩ := hcanonical
        rw [hi] at hi'
        cases hi'
        rw [hkey', hkey] at hno
        cases hno
      · exact hkeep (hknown ▸ hs') hgone'
    · rw [Function.update_of_ne hjk] at hs' hgone
      exact hkeep hs' hgone

/-! ## Answers that lose no row -/

/-- What touches neither ledger nor backend is careful. -/
theorem careful_frame (h : Metered service w c duty aligning) (hl : w'.ledger = w.ledger)
    (ht : w'.table = w.table) (hf : w'.faults = w.faults) (k : Nat) (d : Duty) :
    Careful service k w w' c c d d where
  indexed := hl ▸ h.indexed
  faultless := hf.trans h.faultless
  service_eq := ht ▸ h.service_eq
  keeps := hl ▸ .refl _
  connects hkey := .inl ⟨ht ▸ hkey, rfl⟩
  settles _ howes := .inl howes
  recalls _ hs := .inl hs
  severs hgone := .inr ⟨rfl, hgone⟩

/-- A peer is seen absent, or is disconnected. -/
theorem careful_absent (h : Metered service w c duty aligning) {t : Peer.Table}
    {i : Peer.Identity} (hs : t.service = service)
    (hk : ∀ key, t.contains key → w.table.contains key ∧ key ≠ i.key) (k : Nat) (d : Duty) :
    Careful service k w { w with table := t } c c d (d.absent i) where
  indexed := h.indexed
  faultless := h.faultless
  service_eq := hs
  keeps := .refl _
  connects hkey := .inl ⟨(hk _ hkey).1, rfl⟩
  settles hkey howes := .inl (Duty.owes_absent_of_ne howes (hk _ hkey).2)
  recalls _ hs := .inl hs
  severs {i'} hgone := by
    cases hgone
    exact .inl (Bool.eq_false_iff.2 fun hkey => (hk _ hkey).2 rfl)

theorem careful_hasPeer (h : Metered service w c duty aligning) {i : Peer.Identity}
    (hi : i.service = service) (k : Nat) (d : Duty) :
    Careful service k w (World.perform (.hasPeer i) w).2 c c d
      (d.next (.hasPeer i) (World.perform (.hasPeer i) w).1) := by
  rw [World.perform_hasPeer h.faultless, Peer.Table.has_eq (hi.trans h.service_eq.symm)]
  cases hkey : w.table.contains i.key with
  | true => exact h.careful_frame rfl rfl rfl k d
  | false =>
    refine h.careful_absent h.service_eq (fun key hc => ⟨hc, ?_⟩) k d
    rintro rfl
    rw [hkey] at hc
    cases hc

theorem careful_removePeer (h : Metered service w c duty aligning) {i : Peer.Identity}
    (hi : i.service = service) (k : Nat) (d : Duty) :
    Careful service k w (World.perform (.removePeer i) w).2 c c d (d.absent i) := by
  rw [World.perform_removePeer h.faultless]
  cases hr : w.table.remove i with
  | ok t =>
    obtain ⟨-, -, ht⟩ := Peer.Table.remove_eq_ok_iff.1 hr
    obtain ⟨-, -, hkeys⟩ := Peer.Table.contains_remove hr
    refine h.careful_absent ?_ (fun key hkey => ?_) k d
    · rw [ht]
      exact h.service_eq
    · rw [hkeys, Bool.and_eq_true, bne_iff_ne] at hkey
      exact hkey.symm
  | error e =>
    -- The identity is of the backend's kind, so the peer was not there.
    refine h.careful_absent h.service_eq (fun key hkey => ⟨hkey, ?_⟩) k d
    rintro rfl
    rw [Peer.Table.remove_eq_ok_iff.2 ⟨hi.trans h.service_eq.symm, hkey, rfl⟩] at hr
    cases hr

theorem careful_addPeer (h : Metered service w c duty aligning) {i : Peer.Identity}
    (hi : Peer.Identity.ofKey service i.key = .ok i) (k : Nat) {d : Duty} (hd : d.owes = none) :
    Careful service k w (World.perform (.addPeer i) w).2 c
      (connectors c k (.addPeer i) (World.perform (.addPeer i) w).1) d
      (d.next (.addPeer i) (World.perform (.addPeer i) w).1) := by
  rw [World.perform_addPeer h.faultless]
  cases ha : w.table.add i with
  | error e => exact h.careful_frame rfl rfl rfl k d
  | ok x =>
    obtain ⟨data, t⟩ := x
    obtain ⟨-, hkeys⟩ := Peer.Table.contains_add ha
    obtain ⟨-, -, -, -, rfl⟩ := Peer.Table.add_eq_ok_iff.1 ha
    refine ⟨h.indexed, h.faultless, h.service_eq, .refl _, fun {key} hkey => ?_, ?_, ?_, ?_⟩
    · by_cases hk : key = i.key
      · subst hk
        exact .inr ⟨if_pos rfl, rfl, i, hi, rfl⟩
      · refine .inl ⟨?_, if_neg hk⟩
        rw [hkeys, Bool.or_eq_true, beq_iff_eq] at hkey
        exact hkey.resolve_left hk
    · intro key _ howes
      rw [hd] at howes
      cases howes
    · exact fun s hs => .inl hs
    · exact fun hgone => .inr ⟨rfl, hgone⟩

theorem careful_insertRow (h : Metered service w c duty aligning) (s : Session) (k : Nat)
    (d : Duty) :
    Careful service k w (World.perform (.insertRow s) w).2 c c d
      (d.next (.insertRow s) (World.perform (.insertRow s) w).1) := by
  cases hl : w.ledger.insert s with
  | error e =>
    rw [World.perform_insertRow_of_error hl]
    exact h.careful_frame rfl rfl rfl k d
  | ok l =>
    rw [World.perform_insertRow_of_ok hl]
    obtain ⟨-, -, hnew, -⟩ := Ledger.insert_eq_ok_iff.1 hl
    refine ⟨h.indexed.insertMany hl, h.faultless, h.service_eq, .insertMany hl,
      fun hkey => .inl ⟨hkey, rfl⟩, fun {key} _ howes => ?_, fun s hs => .inl hs,
      fun hgone => .inr ⟨rfl, hgone⟩⟩
    show (if d.owes = some s.peerKey then none else d.owes) = some key ∨ _
    by_cases hk : key = s.peerKey
    · subst hk
      refine .inr ⟨⟨s.id, s, Ledger.holds_of_insert hl, rfl⟩, ?_⟩
      rintro ⟨id, t, ht, htk⟩
      exact h.indexed.keys_getElem?_eq_none_iff.1 hnew id t ht htk
    · rw [howes, if_neg fun he => hk (Option.some.inj he)]
      exact .inl rfl

theorem careful_updateRow (h : Metered service w c duty aligning) (f : Ledger.Filter)
    (u : Ledger.Update) (k : Nat) (d : Duty) :
    Careful service k w (World.perform (.updateRow f u) w).2 c c d d := by
  have hperform : World.perform (.updateRow f u) w = w.updateLedger (w.ledger.updateOne f u) := rfl
  rw [hperform]
  cases hu : w.ledger.updateOne f u with
  | error e => exact h.careful_frame rfl rfl rfl k d
  | ok x =>
    obtain ⟨ids, written, hids⟩ := Ledger.updateOne_eq_ok hu
    exact ⟨h.indexed.updateIds hids, h.faultless, h.service_eq, .updateIds hids,
      fun hkey => .inl ⟨hkey, rfl⟩, fun _ howes => .inl howes, fun s hs => .inl hs,
      fun hgone => .inr ⟨rfl, hgone⟩⟩

theorem careful_findRows (h : Metered service w c duty aligning) (f : Ledger.Filter) (k : Nat)
    (d : Duty) :
    Careful service k w w c c d (d.next (.findRows f) (w.ledger.find f)) := by
  by_cases hf : f = .all
  · subst hf
    obtain ⟨rows, hrows, -, hmem⟩ := h.indexed.find_every
    rw [hrows, Duty.next_findRows_all]
    refine { h.careful_frame rfl rfl rfl k d with recalls := fun s hs => ?_, severs := ?_ }
    · exact .inr ⟨s, (hmem s).1 hs, rfl⟩
    · intro i hgone
      cases hgone
  · cases w.ledger.find f with
    | error e => exact h.careful_frame rfl rfl rfl k d
    | ok rows =>
      show Careful service k w w c c d (if f = .all then _ else d)
      rw [if_neg hf]
      exact h.careful_frame rfl rfl rfl k d

/-- What an answer does that loses no row. -/
theorem careful_answer (h : Metered service w c duty aligning) {role : Role} {r : Request}
    (k : Nat) {d : Duty} (hr : Allowed service role d r) (hkeep : ∀ f, r ≠ .deleteRow f) :
    Careful service k w (World.perform r w).2 c (connectors c k r (World.perform r w).1) d
      (d.next r (World.perform r w).1) := by
  cases r with
  | addPeer i => exact h.careful_addPeer hr.2.2 k hr.2.1
  | hasPeer i => exact h.careful_hasPeer hr k d
  | removePeer i => exact h.careful_removePeer hr k d
  | findRows f => exact h.careful_findRows f k d
  | insertRow s => exact h.careful_insertRow s k d
  | updateRow f u => exact h.careful_updateRow f u k d
  | deleteRow f => exact absurd rfl (hkeep f)
  | peerStatistics =>
    rw [World.perform_peerStatistics h.faultless]
    exact h.careful_frame rfl rfl rfl k d
  | peerCount =>
    rw [World.perform_peerCount h.faultless]
    exact h.careful_frame rfl rfl rfl k d
  | _ => refine h.careful_frame ?_ ?_ ?_ k d <;> rfl

/-! ## Deletions -/

/-- The invariant outlasts the deletion of the row of a session that the only alignment
    knows, once it has seen the peer of that session gone. -/
theorem deleteRow (h : Metered service w c duty aligning) {s : Session} {i : Peer.Identity}
    (hk : aligning k) (honly : ∀ j, aligning j → j = k) (hs : s ∈ (duty k).known)
    (hgone : (duty k).gone = some i) (hi : Peer.Identity.ofKey service s.peerKey = .ok i) :
    Metered service (World.perform (.deleteRow (.byId s.id)) w).2 c
      (Function.update duty k ((duty k).next (.deleteRow (.byId s.id))
        (World.perform (.deleteRow (.byId s.id)) w).1)) aligning := by
  obtain ⟨t, ht, htkey⟩ := h.recalled hk hs
  have hperform : World.perform (.deleteRow (.byId s.id)) w =
      w.updateLedger (w.ledger.deleteOne (.byId s.id)) := rfl
  rw [hperform, h.indexed.deleteOne_byId, Ledger.row?_eq_some_iff.2 ht]
  have hupdate : ∀ {key}, Owed c duty key → Owed c (Function.update duty k
      ((duty k).next (.deleteRow (.byId s.id)) (.ok (some t)))) key :=
    fun h => h.update rfl id
  refine ⟨h.indexed.remove ht, h.faultless, h.service_eq, h.canonical, fun {key} hkey => ?_,
    fun {j u} hj hu => ?_, fun {j u i'} hj hu hgone' hi' hkey => ?_⟩
  · obtain ⟨id, u, hu, hukey⟩ | howed := h.covered hkey
    · by_cases hid : id = s.id
      · -- The row that is deleted: if its peer is connected, another row is owed to it.
        subst hid
        have hkey' : key = s.peerKey := by rw [← hukey, hu.unique ht, htkey]
        subst hkey'
        exact .inr (hupdate (h.severed hk hs hgone hi hkey))
      · exact .inl ⟨id, u, hu.erase hid _, hukey⟩
    · exact .inr (hupdate howed)
  · obtain rfl := honly j hj
    rw [Function.update_self, Duty.mem_known_deleteRow] at hu
    obtain ⟨v, hv, hvkey⟩ := h.recalled hj hu.1
    exact ⟨v, hv.erase hu.2 _, hvkey⟩
  · obtain rfl := honly j hj
    rw [Function.update_self] at hu hgone'
    exact hupdate (h.severed hj (Duty.mem_known_deleteRow.1 hu).1 hgone' hi' hkey)

/-- The invariant outlasts every answer to a request that the duty allows. -/
theorem answer (h : Metered service w c duty aligning) {role : Role} {r : Request}
    (hr : Allowed service role (duty k) r)
    (hrole : role = .alignment → aligning k ∧ ∀ j, aligning j → j = k) :
    Metered service (World.perform r w).2 (connectors c k r (World.perform r w).1)
      (Function.update duty k ((duty k).next r (World.perform r w).1)) aligning := by
  by_cases hdelete : ∃ f, r = .deleteRow f
  · obtain ⟨f, rfl⟩ := hdelete
    obtain ⟨hrole', s, hs, rfl, i, hgone, hi⟩ := hr
    obtain ⟨hk, honly⟩ := hrole hrole'
    exact h.deleteRow hk honly hs hgone hi
  · exact h.careful (h.careful_answer k hr fun f hf => hdelete ⟨f, hf⟩)

/-- The answers that tasks have to be ready for are all that there are. -/
theorem possible (h : Metered service w c duty aligning) {role : Role} {r : Request}
    (hr : Allowed service role d r) : Possible r (World.perform r w).1 := by
  cases r with
  | hasPeer i =>
    have hi : i.service = service := hr
    refine ⟨w.table.contains i.key, ?_⟩
    rw [World.perform_hasPeer h.faultless, Peer.Table.has_eq (hi.trans h.service_eq.symm)]
  | findRows f =>
    rw [World.perform_findRows]
    cases hf : w.ledger.find f with
    | error e => trivial
    | ok rows =>
      rintro rfl
      obtain ⟨ss, hss, hnodup, -⟩ := h.indexed.find_every
      rw [hss] at hf
      cases hf
      exact hnodup
  | _ => trivial

/-! ## Other moves -/

/-- What is neither ledger nor backend may change at will. -/
theorem frame (h : Metered service w c duty aligning) (hl : w'.ledger = w.ledger)
    (ht : w'.table = w.table) (hf : w'.faults = w.faults) : Metered service w' c duty aligning where
  indexed := hl ▸ h.indexed
  faultless := hf.trans h.faultless
  service_eq := ht ▸ h.service_eq
  canonical := ht ▸ h.canonical
  covered := hl ▸ ht ▸ h.covered
  recalled := hl ▸ h.recalled
  severed := ht ▸ h.severed

theorem mono (h : Metered service w c duty aligning) {aligning' : Nat → Prop}
    (ha : ∀ j, aligning' j → aligning j) : Metered service w c duty aligning' :=
  { h with
    recalled := fun hj => h.recalled (ha _ hj)
    severed := fun hj => h.severed (ha _ hj) }

/-- A task that begins owes nothing and has read nothing. -/
theorem fresh (h : Metered service w c duty aligning) (hk : (duty k).owes = none)
    {aligning' : Nat → Prop} (ha : ∀ j, aligning' j → aligning j ∨ j = k) :
    Metered service w c (Function.update duty k {}) aligning' := by
  have hold : ∀ {j s}, aligning' j → s ∈ (Function.update duty k {} j).known →
      aligning j ∧ j ≠ k := by
    intro j s hj hs
    have hjk : j ≠ k := by
      rintro rfl
      rw [Function.update_self] at hs
      cases hs
    exact ⟨(ha j hj).resolve_right hjk, hjk⟩
  have hupdate : ∀ {key}, Owed c duty key → Owed c (Function.update duty k {}) key := by
    intro key howed
    refine howed.update rfl fun howes => ?_
    rw [hk] at howes
    cases howes
  refine ⟨h.indexed, h.faultless, h.service_eq, h.canonical,
    fun hkey => (h.covered hkey).imp_right hupdate, fun hj hs => ?_, fun hj hs hgone hi hkey => ?_⟩
  · obtain ⟨hj', hjk⟩ := hold hj hs
    rw [Function.update_of_ne hjk] at hs
    exact h.recalled hj' hs
  · obtain ⟨hj', hjk⟩ := hold hj hs
    rw [Function.update_of_ne hjk] at hs hgone
    exact hupdate (h.severed hj' hs hgone hi hkey)

theorem traffic (h : Metered service w c duty aligning) (key : String) (usage : Peer.Usage) :
    Metered service { w with table := w.table.setUsage key usage } c duty aligning where
  indexed := h.indexed
  faultless := h.faultless
  service_eq := (w.table.service_setUsage key usage).trans h.service_eq
  canonical hkey := h.canonical (w.table.contains_setUsage key usage _ ▸ hkey)
  covered hkey := h.covered (w.table.contains_setUsage key usage _ ▸ hkey)
  recalled := h.recalled
  severed hj hs hgone hi hkey :=
    h.severed hj hs hgone hi (w.table.contains_setUsage key usage _ ▸ hkey)

end Metered

end VpnNode.Interleaving
