import VpnNode.Job.Sessions
import VpnNode.Proofs.Ledger.Rows
import VpnNode.Proofs.Session.Usage
import VpnNode.Proofs.Simulation.Run

/-!
# What metering and enforcing quotas do

Metering goes over the counters of the connected peers and writes each into the row with
that peer key; the rows that no connected peer has stay as they are. Enforcing goes over
the rows and disconnects the peers of those that are over quota. Both reach their end
when the rows have numerals and the keys are canonical.

Main statements:

* `completes_meter`: metering revises the rows.
* `metering_of_connected`, `metering_of_absent`: what it writes into a row.
* `completes_enforce_of_counted`, `completes_enforce`: enforcing disconnects the peers of
  the rows over quota.
-/

namespace VpnNode.Job

open Simulation (World)
open Simulation.World (Completes)
open Peer.Identity (canonical? canonical?_eq_some_iff)

variable {service : Service} {w : World}

/-! ## Metering -/

/-- The row with the key of a peer is written with its counters. -/
def meterOne (now : Time) (s : Session) (stat : Peer.Statistic) : Session :=
  if s.peerKey = stat.key then s.metered stat.download.toNat stat.upload.toNat now else s

/-- A row after the counters of peers were written, one after the other. -/
def metering (now : Time) (stats : List Peer.Statistic) (s : Session) : Session :=
  stats.foldl (meterOne now) s

theorem meterOne_of_eq {s : Session} {stat : Peer.Statistic} (h : s.peerKey = stat.key)
    (now : Time) : meterOne now s stat = s.metered stat.download.toNat stat.upload.toNat now :=
  if_pos h

theorem meterOne_of_ne {s : Session} {stat : Peer.Statistic} (h : s.peerKey ≠ stat.key)
    (now : Time) : meterOne now s stat = s := if_neg h

theorem fixed_meterOne (now : Time) (stat : Peer.Statistic) (s : Session) :
    s.Fixed (meterOne now s stat) := by
  unfold meterOne
  split
  · exact ⟨rfl, rfl, rfl, rfl, rfl, rfl, rfl, rfl⟩
  · exact .refl s

theorem fixed_metering (now : Time) (stats : List Peer.Statistic) (s : Session) :
    s.Fixed (metering now stats s) := by
  induction stats generalizing s with
  | nil => exact .refl s
  | cons stat stats ih => exact (fixed_meterOne now stat s).trans (ih _)

theorem counted_meterOne {s : Session} (h : s.Counted) (now : Time) (stat : Peer.Statistic) :
    (meterOne now s stat).Counted := by
  unfold meterOne
  split
  · exact h.apply (Session.apply_usage h _ _ now)
  · exact h

theorem counted_metering {s : Session} (h : s.Counted) (now : Time)
    (stats : List Peer.Statistic) : (metering now stats s).Counted := by
  induction stats generalizing s with
  | nil => exact h
  | cons stat stats ih => exact ih (counted_meterOne h now stat)

/-- A row with the key of none of the peers stays as it is. -/
theorem metering_of_absent {now : Time} {stats : List Peer.Statistic} {s : Session}
    (h : ∀ stat ∈ stats, s.peerKey ≠ stat.key) : metering now stats s = s := by
  induction stats with
  | nil => rfl
  | cons stat stats ih =>
    rw [metering, List.foldl_cons, meterOne_of_ne (h stat List.mem_cons_self)]
    exact ih fun stat hstat => h stat (List.mem_cons_of_mem _ hstat)

/-- A row with the key of one of the peers is written with the counters of that peer. -/
theorem metering_of_connected {now : Time} {stats : List Peer.Statistic} {s : Session}
    {stat : Peer.Statistic} (hnodup : (stats.map (·.key)).Nodup) (hstat : stat ∈ stats)
    (hkey : s.peerKey = stat.key) :
    metering now stats s = s.metered stat.download.toNat stat.upload.toNat now := by
  induction stats with
  | nil => exact absurd hstat List.not_mem_nil
  | cons first stats ih =>
    rw [List.map_cons, List.nodup_cons] at hnodup
    have hrest : ∀ {t : Session}, t.peerKey = first.key → metering now stats t = t := by
      intro t ht
      refine metering_of_absent fun other hother he => hnodup.1 ?_
      rw [← ht, he]
      exact List.mem_map_of_mem hother
    rcases List.mem_cons.1 hstat with rfl | hmem
    · rw [metering, List.foldl_cons, meterOne_of_eq hkey]
      exact hrest hkey
    · have hne : s.peerKey ≠ first.key := by
        rw [hkey]
        exact fun he => hnodup.1 (he ▸ List.mem_map_of_mem hmem)
      rw [metering, List.foldl_cons, meterOne_of_ne hne]
      exact ih hnodup.2 hmem

/-- What is left of metering after a write. -/
def afterWrite (service : Service) (stats : List Peer.Statistic) :
    Except Ledger.Error (Option Session) → Program (Except Error Nat)
  | .error e => .done (.error (.ledger e))
  | .ok written => (meter service stats).bind fun rest =>
    .done (rest.map fun n => if written.isSome then n + 1 else n)

theorem meter_cons {stat : Peer.Statistic} {i : Peer.Identity}
    (h : Peer.Identity.ofKey service stat.key = .ok i) (stats : List Peer.Statistic) :
    meter service (stat :: stats) = .ask .now fun now =>
      .ask (.updateRow (.byPeerKey i.key)
        (Ledger.Update.usage stat.download.toNat stat.upload.toNat now)) fun answer =>
        (Program.ofFailure answer).bind (afterWrite service stats) := by
  rw [meter, h]
  rfl

/-- Surroundings in which every row is written anew. -/
def revised (w : World) (f : Session → Session) : World := { w with ledger := w.ledger.revise f }

theorem revised_revised (w : World) (f g : Session → Session) :
    revised (revised w f) g = revised w fun s => g (f s) := by
  show { w with ledger := (w.ledger.revise f).revise g } = _
  rw [Ledger.revise_revise]
  rfl

/-- The counters of one peer with a canonical key are written, if the peer has a row. -/
theorem perform_usage (hi : w.ledger.Indexed) (hc : w.ledger.Every Session.Counted)
    (stat : Peer.Statistic) :
    ∃ written, World.perform (.updateRow (.byPeerKey stat.key)
        (.usage stat.download.toNat stat.upload.toNat w.wallClock)) w =
      (.ok written, revised w fun s => meterOne w.wallClock s stat) ∧
      written.isSome = (w.ledger.rowOf? stat.key).isSome := by
  have hwrite := hi.updateOne_byPeerKey stat.key
    (u := .usage stat.download.toNat stat.upload.toNat w.wallClock) rfl
    fun s hs => Session.apply_usage (hc s.id s hs) _ _ _
  exact ⟨_, World.perform_updateRow_of_ok hwrite, Option.isSome_map⟩

/-- Metering revises the rows with the counters of peers with canonical keys, and counts the
    peers that have a row. -/
theorem completes_meter (stats : List Peer.Statistic) (hi : w.ledger.Indexed)
    (hc : w.ledger.Every Session.Counted)
    (hkeys : ∀ stat ∈ stats, canonical? service stat.key = some stat.key) :
    Completes (meter service stats) w
      (.ok (stats.countP fun stat => (w.ledger.rowOf? stat.key).isSome))
      (revised w (metering w.wallClock stats)) [] := by
  induction stats generalizing w with
  | nil =>
    have hsame : revised w (metering w.wallClock []) = w := by
      show { w with ledger := w.ledger.revise fun s => s } = w
      rw [Ledger.revise_self]
    rw [hsame]
    exact .done _ w
  | cons stat stats ih =>
    obtain ⟨i, hofKey, hikey⟩ := canonical?_eq_some_iff.1 (hkeys stat List.mem_cons_self)
    have hfixed := fixed_meterOne w.wallClock stat
    have hi₁ : (revised w fun s => meterOne w.wallClock s stat).ledger.Indexed :=
      hi.revise (fun s => (hfixed s).id) fun s => (hfixed s).peerKey
    have hc₁ : (revised w fun s => meterOne w.wallClock s stat).ledger.Every Session.Counted := by
      intro id t ht
      obtain ⟨s, hs, rfl⟩ := Ledger.holds_revise.1 ht
      exact counted_meterOne (hc id s hs) _ _
    obtain ⟨written, hwrite, hwritten⟩ := perform_usage hi hc stat
    have hrest := ih hi₁ hc₁ fun other hother => hkeys other (List.mem_cons_of_mem _ hother)
    have hrows : ∀ key,
        ((revised w fun s => meterOne w.wallClock s stat).ledger.rowOf? key).isSome =
          (w.ledger.rowOf? key).isSome := fun key => by
      show ((w.ledger.revise _).rowOf? key).isSome = _
      rw [Ledger.rowOf?_revise, Option.isSome_map]
    simp only [revised_revised, hrows] at hrest
    have hcount := hrest.bind (f := fun rest => Program.done (rest.map fun n =>
      if written.isSome then n + 1 else n)) (.done _ _)
    have hsum : ∀ n, (if written.isSome then n + 1 else n) =
        n + if (w.ledger.rowOf? stat.key).isSome then 1 else 0 := fun n => by
      rw [hwritten]
      split <;> rfl
    rw [Except.map, hsum] at hcount
    rw [meter_cons hofKey, hikey, List.countP_cons]
    exact .ask rfl rfl (.ask rfl hwrite hcount)

/-! ## Enforcing -/

/-- What is left of enforcing after the removal of a peer. -/
def afterDismissal (service : Service) (rows : List Session) (removed : Except Peer.Error Unit) :
    Program (Nat × Nat) :=
  (enforce service rows).bind fun r => .done (r.1 + 1, if removed.isOk then r.2 else r.2 + 1)

/-- What is left of enforcing after a row was looked at. -/
def afterCheck (service : Service) (s : Session) (rows : List Session) (exceeded : Bool) :
    Program (Nat × Nat) :=
  if exceeded then (Peer.removeIfPresent service s.peerKey).bind (afterDismissal service rows)
  else enforce service rows

theorem enforce_cons (service : Service) (s : Session) (rows : List Session) :
    enforce service (s :: rows) =
      (Program.ofCorruption s.isOverQuota).bind (afterCheck service s rows) :=
  rfl

/-- A row that is not over quota is passed over. -/
theorem completes_enforce_of_within {s : Session} {rows : List Session} {r : Nat × Nat}
    {w' : World} (hcounted : s.Counted) (hwithin : ¬s.OverQuota)
    (h : Completes (enforce service rows) w r w' []) :
    Completes (enforce service (s :: rows)) w r w' [] := by
  rw [enforce_cons, Session.isOverQuota_eq hcounted, decide_eq_false hwithin]
  exact h

/-- The row is over quota, and its peer has this key. -/
def overruns (service : Service) (key : String) (s : Session) : Bool :=
  decide s.OverQuota && canonical? service s.peerKey == some key

/-- The row is over quota, and the kind of service does not know its peer key. -/
def stranded (service : Service) (s : Session) : Bool :=
  decide s.OverQuota && (canonical? service s.peerKey).isNone

/-- The peer of a row that is over quota is disconnected if its key is known, and the row
    is counted. -/
theorem completes_enforce_of_over {s : Session} {rows : List Session} {n failed : Nat} {w' : World}
    (hf : w.faults = []) (hcounted : s.Counted) (hover : s.OverQuota)
    (h : Completes (enforce w.table.service rows)
      { w with table := (canonical? w.table.service s.peerKey).elim w.table w.table.dismiss }
      (n, failed) w' []) :
    Completes (enforce w.table.service (s :: rows)) w
      (n + 1, if (canonical? w.table.service s.peerKey).isNone then failed + 1 else failed) w' [] := by
  rw [enforce_cons, Session.isOverQuota_eq hcounted, decide_eq_true hover]
  cases hkey : Peer.Identity.ofKey w.table.service s.peerKey with
  | error e =>
    have hremoved := World.completes_removeIfPresent_of_error w hkey
    rw [Peer.Identity.canonical?_of_error hkey] at h ⊢
    have hcount : Completes (afterDismissal w.table.service rows (.error e)) _ _ _ _ :=
      h.bind (.done _ _)
    exact hremoved.bind hcount
  | ok i =>
    have hremoved := World.completes_removeIfPresent hf hkey
    rw [Peer.Identity.canonical?_of_ok hkey] at h ⊢
    have hcount : Completes (afterDismissal w.table.service rows (.ok ())) _ _ _ _ :=
      h.bind (.done _ _)
    exact hremoved.bind hcount

/-- Enforcing disconnects the peers of the rows over quota, of rows with numerals, and
    counts these rows and those of them with a key that is not known. -/
theorem completes_enforce_of_counted (rows : List Session) (hs : w.table.service = service)
    (hf : w.faults = []) (hrows : ∀ s ∈ rows, s.Counted) :
    ∃ table, Completes (enforce service rows) w
        (rows.countP fun s => decide s.OverQuota, rows.countP (stranded service))
        { w with table } [] ∧
      ∀ key, table.peers[key]? =
        if rows.any (overruns service key) then none else w.table.peers[key]? := by
  induction rows generalizing w with
  | nil => exact ⟨w.table, .done _ w, fun key => rfl⟩
  | cons s rows ih =>
    rw [List.forall_mem_cons] at hrows
    obtain ⟨hcounted, hrows⟩ := hrows
    by_cases hover : s.OverQuota
    · subst hs
      obtain ⟨table, hrest, hpeers⟩ := ih
        (w := { w with table := (canonical? w.table.service s.peerKey).elim w.table w.table.dismiss })
        (Peer.Table.service_elim_dismiss w.table _) hf hrows
      refine ⟨table, ?_, fun key => ?_⟩
      · rw [List.countP_cons, List.countP_cons, if_pos (decide_eq_true hover), stranded,
          decide_eq_true hover, Bool.true_and]
        have hfirst := completes_enforce_of_over hf hcounted hover hrest
        cases hkey : canonical? w.table.service s.peerKey with
        | none => rwa [hkey] at hfirst
        | some k => rwa [hkey] at hfirst
      · rw [hpeers, List.any_cons, overruns, decide_eq_true hover, Bool.true_and]
        cases canonical? w.table.service s.peerKey with
        | none => rfl
        | some k =>
          show (if _ then none else (w.table.dismiss k).peers[key]?) = _
          rw [Peer.Table.getElem?_dismiss]
          by_cases hsame : k = key <;> simp [hsame]
    · obtain ⟨table, hrest, hpeers⟩ := ih hs hf hrows
      refine ⟨table, ?_, fun key => ?_⟩
      · rw [List.countP_cons, List.countP_cons, stranded, decide_eq_false hover]
        exact completes_enforce_of_within hcounted hover hrest
      · rw [hpeers, List.any_cons, overruns, decide_eq_false hover]
        rfl

/-- Enforcing disconnects the peers of the rows over quota, of rows with numerals and
    canonical keys, and counts the rows. -/
theorem completes_enforce (rows : List Session) (hs : w.table.service = service)
    (hf : w.faults = [])
    (hrows : ∀ s ∈ rows, s.Counted ∧ canonical? service s.peerKey = some s.peerKey) :
    ∃ table, Completes (enforce service rows) w
        (rows.countP fun s => decide s.OverQuota, 0) { w with table } [] ∧
      ∀ key, table.peers[key]? =
        if rows.any fun s => s.peerKey == key && decide s.OverQuota then none
        else w.table.peers[key]? := by
  obtain ⟨table, henforce, hpeers⟩ :=
    completes_enforce_of_counted rows hs hf fun s hmem => (hrows s hmem).1
  have hknown : rows.countP (stranded service) = 0 := by
    rw [List.countP_eq_zero]
    intro s hmem
    rw [stranded, (hrows s hmem).2]
    simp
  have hkeys : ∀ key, rows.any (overruns service key) =
      rows.any fun s => s.peerKey == key && decide s.OverQuota := by
    intro key
    rw [Bool.eq_iff_iff, List.any_eq_true, List.any_eq_true]
    refine exists_congr fun s => and_congr_right fun hmem => ?_
    rw [overruns, (hrows s hmem).2]
    simp [and_comm]
  rw [hknown] at henforce
  refine ⟨table, henforce, fun key => ?_⟩
  rw [hpeers, hkeys]

end VpnNode.Job
