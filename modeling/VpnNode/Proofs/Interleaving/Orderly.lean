import VpnNode.Proofs.Interleaving.Tasks
import VpnNode.Proofs.Job.Reconciliation
import VpnNode.Proofs.Session.Usage

/-!
# Rows and peers that admissions leave

An admission stores a row that was checked, under the canonical form of the client's key,
and connects its peer under the same key. No other task stores a row or connects a peer,
and no update changes a peer key or spoils a counter. So while the tasks of the node are
the only ones to add rows and peers, the counters of every row are numerals and all keys
are canonical.

Main statements:

* `program_regular`: what a task of the node may add.
* `Orderly.perform`: an answer to such a request leaves rows and peers in order.
* `Orderly.run`: so does a task that runs alone.
-/

namespace VpnNode.Interleaving

open Simulation (World)
open Peer.Identity (canonical? canonical?_eq_some_iff)

/-! ## What tasks add -/

/-- A request that adds rows and peers under canonical keys only. -/
def Regular (service : Service) : Request → Prop
  | .addPeer i => canonical? service i.key = some i.key
  | .insertRow s => canonical? service s.peerKey = some s.peerKey
  | _ => True

variable {service : Service}

theorem Harmless.regular {r : Request} (h : Harmless service r) : Regular service r := by
  cases r <;> trivial

theorem Admitting.regular {r : Request} (h : Admitting service r) : Regular service r := by
  cases r <;> first | exact h | trivial

/-- The canonical key of an identity is its own canonical form. -/
theorem canonical?_key {key : String} {i : Peer.Identity}
    (h : Peer.Identity.ofKey service key = .ok i) : canonical? service i.key = some i.key :=
  Peer.Identity.canonical?_of_ok (Peer.Identity.ofKey_key h)

theorem addByKey_regular (service : Service) (key : String) :
    Asks (Regular service) (Peer.addByKey service key) := by
  unfold Peer.addByKey Peer.withIdentity
  cases hi : Peer.Identity.ofKey service key with
  | error e => trivial
  | ok i => exact .bind (.request (canonical?_key hi)) fun _ => trivial

theorem removeIfPresent_regular (service : Service) (key : String) :
    Asks (Regular service) (Peer.removeIfPresent service key) :=
  (asks_removeIfPresent service key).mono fun _ h => h.regular

theorem querySession_regular (p : Chain.Policies) (id : UInt64) :
    Asks (Regular service) (Chain.querySession p id) :=
  (asks_querySession p id).mono fun _ h => h.harmless.regular

theorem accept_regular (config : NodeConfig) (r : Admission.Request) :
    Asks (Regular config.service) (Admission.accept config r) :=
  (accept_admitting config r).mono fun _ h => h.regular

theorem reconcile_regular (config : NodeConfig) (rows : List Session) :
    Asks (Regular config.service) (Job.reconcile config rows) := by
  induction rows with
  | nil => trivial
  | cons s rows ih =>
    have hone : Asks (Regular config.service) (Job.reconcileOne config s) := by
      rw [Job.reconcileOne_eq]
      refine .bind (querySession_regular config.policies s.id) fun answer => ?_
      obtain e | remote := answer
      · trivial
      refine .ite trivial (.bind (removeIfPresent_regular _ _) fun removed => ?_)
      obtain e | ⟨⟩ := removed
      · trivial
      · refine .ite trivial ⟨trivial, fun deleted => ?_⟩
        cases deleted <;> trivial
    exact .bind hone fun _ => .bind ih fun _ => trivial

theorem sessionValidationRun_regular (config : NodeConfig) :
    Asks (Regular config.service) (Job.sessionValidationRun config) := by
  refine .bind (.request trivial) fun rows => ?_
  cases rows with
  | error e => trivial
  | ok rows => exact .bind (reconcile_regular config rows) fun _ => trivial

/-- A task of the node adds rows and peers under canonical keys only. -/
theorem program_regular (config : NodeConfig) (e : Errand) :
    Asks (Regular config.service) (e.program config) := by
  cases e with
  | admission r => exact .bind (accept_regular config r) fun _ => trivial
  | pass j =>
    refine .bind ?_ fun _ => trivial
    by_cases hj : j = .sessionValidation
    · subst hj
      exact .bind (sessionValidationRun_regular config) fun _ => trivial
    · exact (asks_run config hj).mono fun _ h => h.regular

/-! ## Surroundings in order -/

/-- A row with numerals, under a canonical key. -/
def Proper (service : Service) (s : Session) : Prop :=
  s.Counted ∧ canonical? service s.peerKey = some s.peerKey

theorem Proper.apply {s t : Session} (h : Proper service s) {u : Ledger.Update}
    (ht : u.apply s = .ok t) : Proper service t := by
  refine ⟨h.1.apply ht, ?_⟩
  rw [(Ledger.Update.apply_fixed ht).peerKey]
  exact h.2

/-- Rows are proper, peers are connected under canonical keys, and a backend in memory
    without failures in store reports its own counters. -/
structure Orderly (service : Service) (w : World) : Prop where
  indexed : w.ledger.Indexed
  proper : w.ledger.Every (Proper service)
  canonical : ∀ key, w.table.contains key = true → canonical? service key = some key
  service_eq : w.table.service = service
  faultless : w.faults = []
  genuine : w.reported = none

namespace Orderly

variable {w w' : World}

/-- The ledger is replaced by another that is in order. -/
theorem withLedger (h : Orderly service w) {ledger : Ledger} (hi : ledger.Indexed)
    (hp : ledger.Every (Proper service)) : Orderly service { w with ledger } :=
  ⟨hi, hp, h.canonical, h.service_eq, h.faultless, h.genuine⟩

/-- The table is replaced by another of the kind. -/
theorem withTable (h : Orderly service w) {table : Peer.Table} (hs : table.service = service)
    (hc : ∀ key, table.contains key = true → canonical? service key = some key) :
    Orderly service { w with table } :=
  ⟨h.indexed, h.proper, hc, hs, h.faultless, h.genuine⟩

theorem addPeer (h : Orderly service w) {i : Peer.Identity}
    (hi : canonical? service i.key = some i.key) :
    Orderly service (World.perform (.addPeer i) w).2 := by
  rw [World.perform_addPeer h.faultless]
  cases hadd : w.table.add i with
  | error e => exact h
  | ok x =>
    obtain ⟨data, table⟩ := x
    obtain ⟨-, hkeys⟩ := Peer.Table.contains_add hadd
    obtain ⟨-, -, -, -, htable⟩ := Peer.Table.add_eq_ok_iff.1 hadd
    refine h.withTable (by rw [htable]; exact h.service_eq) fun key hkey => ?_
    rw [hkeys, Bool.or_eq_true, beq_iff_eq] at hkey
    rcases hkey with rfl | hkey
    · exact hi
    · exact h.canonical key hkey

theorem removePeer (h : Orderly service w) (i : Peer.Identity) :
    Orderly service (World.perform (.removePeer i) w).2 := by
  rw [World.perform_removePeer h.faultless]
  cases hremove : w.table.remove i with
  | error e => exact h
  | ok table =>
    obtain ⟨-, -, hkeys⟩ := Peer.Table.contains_remove hremove
    obtain ⟨-, -, htable⟩ := Peer.Table.remove_eq_ok_iff.1 hremove
    refine h.withTable (by rw [htable]; exact h.service_eq) fun key hkey => ?_
    rw [hkeys, Bool.and_eq_true] at hkey
    exact h.canonical key hkey.2

theorem insertRow (h : Orderly service w) {s : Session}
    (hs : canonical? service s.peerKey = some s.peerKey) :
    Orderly service (World.perform (.insertRow s) w).2 := by
  cases hinsert : w.ledger.insert s with
  | error e =>
    rw [World.perform_insertRow_of_error hinsert]
    exact h
  | ok ledger =>
    rw [World.perform_insertRow_of_ok hinsert]
    have hvalid : s.validate = .ok () := (Ledger.insert_eq_ok_iff.1 hinsert).1
    exact h.withLedger (h.indexed.insertMany hinsert)
      (h.proper.insert ⟨Session.counted_of_validate hvalid, hs⟩ hinsert)

theorem updateRow (h : Orderly service w) (f : Ledger.Filter) (u : Ledger.Update) :
    Orderly service (World.perform (.updateRow f u) w).2 := by
  show Orderly service (w.updateLedger (w.ledger.updateOne f u)).2
  cases hupdate : w.ledger.updateOne f u with
  | error e => exact h
  | ok x =>
    obtain ⟨ids, written, hu⟩ := Ledger.updateOne_eq_ok hupdate
    exact h.withLedger (h.indexed.updateIds hu)
      (h.proper.updateIds (fun _ _ hs ht => hs.apply ht) hu)

theorem deleteRow (h : Orderly service w) (f : Ledger.Filter) :
    Orderly service (World.perform (.deleteRow f) w).2 := by
  show Orderly service (w.updateLedger (w.ledger.deleteOne f)).2
  cases hdelete : w.ledger.deleteOne f with
  | error e => exact h
  | ok x =>
    obtain ⟨ids, removed, hd⟩ := Ledger.deleteOne_eq_ok hdelete
    exact h.withLedger (h.indexed.deleteIds hd) (h.proper.deleteIds hd)

/-- Nothing is added or removed. -/
theorem frame (h : Orderly service w) (hl : w'.ledger = w.ledger) (ht : w'.table = w.table)
    (hf : w'.faults = w.faults) (hr : w'.reported = w.reported) : Orderly service w' := by
  refine ⟨hl ▸ h.indexed, hl ▸ h.proper, ht ▸ h.canonical, ht ▸ h.service_eq, ?_, ?_⟩
  · rw [hf, h.faultless]
  · rw [hr, h.genuine]

/-- An answer leaves rows and peers in order. -/
theorem perform (h : Orderly service w) {r : Request} (hr : Regular service r) :
    Orderly service (World.perform r w).2 := by
  cases r with
  | addPeer i => exact h.addPeer hr
  | removePeer i => exact h.removePeer i
  | insertRow s => exact h.insertRow hr
  | updateRow f u => exact h.updateRow f u
  | deleteRow f => exact h.deleteRow f
  | hasPeer i =>
    rw [World.perform_hasPeer h.faultless]
    exact h
  | peerStatistics =>
    rw [World.perform_peerStatistics h.faultless]
    exact h
  | peerCount =>
    rw [World.perform_peerCount h.faultless]
    exact h
  | _ => exact h.frame rfl rfl rfl rfl

/-- So does a task that runs alone. -/
theorem run {p : Program α} (hp : Asks (Regular service) p) (h : Orderly service w) :
    Orderly service (w.run p).2 := by
  induction p generalizing w with
  | done a => exact h
  | abort message => exact h
  | ask r next ih =>
    rw [World.run_ask]
    exact ih _ (hp.2 _) (h.perform hp.1)

end Orderly

end VpnNode.Interleaving
