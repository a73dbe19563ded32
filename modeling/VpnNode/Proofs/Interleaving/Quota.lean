import VpnNode.Proofs.Interleaving.Orderly
import VpnNode.Proofs.Job.Metering

/-!
# Quotas are enforced

A node has run for a while: admissions and passes of jobs in any interleaving, writes to
the ledger from elsewhere that add no row, and peers that were connected and disconnected
by their keys from elsewhere. Then a pass copies the counters of the backend into the
ledger, and the next one disconnects who is over quota.

Main statements:

* `Kept.after`: what holds of rows, peers and tasks after any history.
* `Orderly.completes_usageToLedgerRun`, `Orderly.completes_usageValidationRun`: what the
  two passes do to rows and peers that are in order.
* `quota_enforced`: who is disconnected by the two passes, and who is not.
-/

namespace VpnNode.Interleaving

open Simulation (World)
open Simulation.World (Completes)
open Peer.Identity (canonical?)

/-! ## Histories -/

/-- What happens to a node. -/
inductive Event where
  | move (m : Move)
  /-- The ledger is written from elsewhere; an operation that adds rows is not performed. -/
  | write (op : Ledger.Operation)
  | connect (key : String)
  | disconnect (key : String)

namespace Node

/-- The node after an event. -/
def happen (config : NodeConfig) (n : Node) : Event → Node
  | .move m => n.move config m
  | .write op =>
    if op.adds then n
    else { n with world := { n.world with ledger := n.world.ledger.perform op } }
  | .connect key => { n with world := (n.world.run (Peer.addByKey config.service key)).2 }
  | .disconnect key => { n with world := (n.world.run (Peer.removeIfPresent config.service key)).2 }

/-- The node after a history that begins without rows, peers and tasks, where the backend
    reports its own counters. -/
def afterEvents (config : NodeConfig) (capacity : Nat) (w : World) (events : List Event) : Node :=
  events.foldl (happen config) (start config capacity { w with reported := none })

end Node

/-- Rows and peers are in order, and the tasks in flight keep them so. -/
structure Kept (config : NodeConfig) (n : Node) : Prop where
  orderly : Orderly config.service n.world
  regular : ∀ t ∈ n.tasks, Asks (Regular config.service) t.rest

namespace Kept

variable {config : NodeConfig} {n : Node}

theorem start (config : NodeConfig) (capacity : Nat) (w : World) :
    Kept config (.start config capacity { w with reported := none }) where
  orderly := {
    indexed := .empty
    proper := .empty
    canonical := fun key hkey => by
      simp [Node.start, Peer.Table.empty, Peer.Table.contains] at hkey
    service_eq := rfl
    faultless := rfl
    genuine := rfl }
  regular t ht := absurd ht List.not_mem_nil

theorem step (h : Kept config n) (k : Nat) : Kept config (n.step k) := by
  rcases n.step_cases k with hsame | ⟨e, r, next, hk, hanswer⟩
  · rw [hsame]
    exact h
  · have hrest : Asks (Regular config.service) (Program.ask r next) :=
      h.regular _ (List.mem_of_getElem? hk)
    rw [hanswer]
    refine ⟨h.orderly.perform hrest.1, fun t ht => ?_⟩
    rcases List.mem_or_eq_of_mem_set ht with ht | rfl
    · exact h.regular t ht
    · exact hrest.2 _

theorem move (h : Kept config n) (m : Move) : Kept config (n.move config m) := by
  cases m with
  | begin e =>
    show Kept config (if n.admits e then n.begin config e else n)
    split
    · refine ⟨h.orderly, fun t ht => ?_⟩
      rcases List.mem_append.1 ht with ht | ht
      · exact h.regular t ht
      · rw [List.mem_singleton.1 ht]
        exact program_regular config e
    · exact h
  | step k => exact h.step k
  | chain c => exact ⟨h.orderly.frame rfl rfl rfl rfl, h.regular⟩
  | clock now => exact ⟨h.orderly.frame rfl rfl rfl rfl, h.regular⟩
  | traffic key usage =>
    refine ⟨h.orderly.withTable ?_ fun k hk => ?_, h.regular⟩
    · rw [Peer.Table.service_setUsage]
      exact h.orderly.service_eq
    · rw [Peer.Table.contains_setUsage] at hk
      exact h.orderly.canonical k hk

theorem happen (h : Kept config n) (e : Event) : Kept config (n.happen config e) := by
  cases e with
  | move m => exact h.move m
  | write op =>
    show Kept config (if op.adds then n else _)
    split
    · exact h
    · rename_i hadds
      refine ⟨h.orderly.withLedger (h.orderly.indexed.perform op) ?_, h.regular⟩
      exact h.orderly.proper.perform (fun _ _ _ hs ht => hs.apply ht) (by simpa using hadds)
  | connect key => exact ⟨h.orderly.run (addByKey_regular config.service key), h.regular⟩
  | disconnect key => exact ⟨h.orderly.run (removeIfPresent_regular config.service key), h.regular⟩

/-- What holds of rows, peers and tasks after any history. -/
theorem after (config : NodeConfig) (capacity : Nat) (w : World) (events : List Event) :
    Kept config (.afterEvents config capacity w events) := by
  have hrun : ∀ n, Kept config n → Kept config (events.foldl (Node.happen config) n) := by
    induction events with
    | nil => exact fun n hn => hn
    | cons e events ih => exact fun n hn => ih _ (hn.happen e)
  exact hrun _ (start config capacity w)

end Kept

/-! ## The two passes -/

variable {config : NodeConfig} {service : Service} {w : World}

/-- Metering leaves rows in order. -/
theorem Orderly.metered (h : Orderly service w) (now : Time) (stats : List Peer.Statistic) :
    Orderly service (Job.revised w (Job.metering now stats)) := by
  have hfixed := Job.fixed_metering now stats
  refine h.withLedger (h.indexed.revise (fun s => (hfixed s).id) fun s => (hfixed s).peerKey) ?_
  intro id t ht
  obtain ⟨s, hs, rfl⟩ := Ledger.holds_revise.1 ht
  obtain ⟨hcounted, hkey⟩ := h.proper id s hs
  refine ⟨Job.counted_metering hcounted now stats, ?_⟩
  rw [(hfixed s).peerKey]
  exact hkey

/-- The first pass copies the counters of all connected peers into the ledger. -/
theorem Orderly.completes_usageToLedgerRun (h : Orderly config.service w) :
    ∃ written, Completes (Job.usageToLedgerRun config) w (.ok written)
      (Job.revised w (Job.metering w.wallClock w.table.statistics)) [] := by
  have hstats := World.perform_peerStatistics h.faultless
  rw [h.genuine] at hstats
  have hkeys : ∀ stat ∈ w.table.statistics, canonical? config.service stat.key = some stat.key := by
    intro stat hstat
    refine h.canonical stat.key ?_
    rw [Peer.Table.contains_eq_isSome, Peer.Table.mem_statistics.1 hstat]
    rfl
  have hmeter := Job.completes_meter w.table.statistics h.indexed
    (fun id s hs => (h.proper id s hs).1) hkeys
  exact ⟨_, .ask rfl hstats hmeter⟩

/-- The second pass disconnects the peers of the rows over quota, and counts the rows. -/
theorem Orderly.completes_usageValidationRun (h : Orderly config.service w) :
    ∃ table, Completes (Job.usageValidationRun config) w
        (.ok (w.ledger.sessions.countP fun s => decide s.OverQuota)) { w with table } [] ∧
      ∀ key, table.peers[key]? =
        if w.ledger.sessions.any fun s => s.peerKey == key && decide s.OverQuota then none
        else w.table.peers[key]? := by
  have hfind : World.perform (.findRows .all) w = (.ok w.ledger.sessions, w) :=
    World.perform_findRows_all h.indexed
  have hproper : ∀ s ∈ w.ledger.sessions, Proper config.service s := fun s hs =>
    h.proper s.id s (h.indexed.mem_sessions.1 hs)
  obtain ⟨table, henforce, hpeers⟩ :=
    Job.completes_enforce w.ledger.sessions h.service_eq h.faultless hproper
  have hresult := henforce.bind (f := fun r => Program.done
    (if r.2 = 0 then Except.ok r.1 else .error (Job.Error.teardown r.2 r.1))) (.done _ _)
  exact ⟨table, .ask rfl hfind hresult, hpeers⟩

/-- A row whose peer is connected is written with the counters of that peer. -/
theorem metering_withUsage {table : Peer.Table} {usage : String → Peer.Usage} {now : Time}
    {s : Session} (h : table.contains s.peerKey = true) :
    Job.metering now (table.withUsage usage).statistics s =
      s.metered (usage s.peerKey).download.toNat (usage s.peerKey).upload.toNat now := by
  have hmem : (⟨s.peerKey, (usage s.peerKey).download, (usage s.peerKey).upload⟩ :
      Peer.Statistic) ∈ (table.withUsage usage).statistics :=
    Peer.Table.mem_statistics_withUsage.2 ⟨h, rfl⟩
  exact Job.metering_of_connected (Peer.Table.nodup_keys_statistics _) hmem rfl

/-- Any other row stays as it is. -/
theorem metering_withUsage_of_absent {table : Peer.Table} {usage : String → Peer.Usage}
    {now : Time} {s : Session} (h : table.contains s.peerKey = false) :
    Job.metering now (table.withUsage usage).statistics s = s := by
  refine Job.metering_of_absent fun stat hstat hkey => ?_
  have hcontains := (Peer.Table.mem_statistics_withUsage.1 hstat).1
  rw [← hkey, h] at hcontains
  exact Bool.noConfusion hcontains

/-- Is a row over quota once the counters of the connected peers are copied? -/
def OverAfter (table : Peer.Table) (usage : String → Peer.Usage) (now : Time) (s : Session) :
    Prop :=
  if table.contains s.peerKey then
    s.Exceeds (usage s.peerKey).download.toNat (usage s.peerKey).upload.toNat now
  else s.OverQuota

instance (table : Peer.Table) (usage : String → Peer.Usage) (now : Time) (s : Session) :
    Decidable (OverAfter table usage now s) := by unfold OverAfter; infer_instance

theorem overQuota_metering_iff {table : Peer.Table} {usage : String → Peer.Usage} {now : Time}
    {s : Session} (hs : s.Counted) :
    (Job.metering now (table.withUsage usage).statistics s).OverQuota ↔
      OverAfter table usage now s := by
  unfold OverAfter
  cases h : table.contains s.peerKey with
  | true =>
    rw [metering_withUsage h, if_pos rfl]
    exact Session.overQuota_metered_iff hs _ _ now
  | false =>
    rw [metering_withUsage_of_absent h, if_neg Bool.false_ne_true]

/-- The rows that are over quota after metering, by the key of a connected peer. -/
theorem any_overQuota_iff {usage : String → Peer.Usage} {now : Time} {key : String}
    (h : Orderly service w) (hkey : w.table.contains key = true) :
    ((w.ledger.revise (Job.metering now (w.table.withUsage usage).statistics)).sessions.any
      fun s => s.peerKey == key && decide s.OverQuota) = true ↔
      ∃ id s, w.ledger.Holds id s ∧ s.peerKey = key ∧
        s.Exceeds (usage key).download.toNat (usage key).upload.toNat now := by
  have hover : ∀ id s, w.ledger.Holds id s → s.peerKey = key →
      ((Job.metering now (w.table.withUsage usage).statistics s).OverQuota ↔
        s.Exceeds (usage key).download.toNat (usage key).upload.toNat now) := by
    rintro id s hs rfl
    rw [overQuota_metering_iff (h.proper id s hs).1, OverAfter, if_pos hkey]
  rw [Ledger.sessions_revise, List.any_map, List.any_eq_true]
  constructor
  · rintro ⟨s, hs, hs'⟩
    have hholds : w.ledger.Holds s.id s := h.indexed.mem_sessions.1 hs
    rw [Function.comp_apply, Bool.and_eq_true, beq_iff_eq, decide_eq_true_eq,
      (Job.fixed_metering _ _ s).peerKey] at hs'
    exact ⟨s.id, s, hholds, hs'.1, (hover s.id s hholds hs'.1).1 hs'.2⟩
  · rintro ⟨id, s, hs, hs', hexceeds⟩
    have hid : s.id = id := h.indexed.id_eq hs
    refine ⟨s, h.indexed.mem_sessions.2 (hid ▸ hs), ?_⟩
    rw [Function.comp_apply, Bool.and_eq_true, beq_iff_eq, decide_eq_true_eq,
      (Job.fixed_metering _ _ s).peerKey]
    exact ⟨hs', (hover id s hs hs').2 hexceeds⟩

/-- The number of rows that are over quota after metering. -/
theorem countP_overQuota_metering (h : Orderly service w)
    (usage : String → Peer.Usage) (now : Time) :
    ((w.ledger.revise (Job.metering now (w.table.withUsage usage).statistics)).sessions.countP
      fun s => decide s.OverQuota) =
      w.ledger.sessions.countP fun s => decide (OverAfter w.table usage now s) := by
  rw [Ledger.sessions_revise, List.countP_map]
  refine List.countP_congr fun s hs => ?_
  have hcounted : s.Counted := (h.proper s.id s (h.indexed.mem_sessions.1 hs)).1
  rw [Function.comp_apply, decide_eq_true_eq, decide_eq_true_eq]
  exact overQuota_metering_iff hcounted

/-- Whatever has happened to a node, whatever the connected peers have sent and received,
    and whatever the time is: the pass that copies the counters into the ledger and then
    the one that enforces the quotas both succeed. A connected peer with a row is
    disconnected exactly if the larger of what is stored and what is reported, in both
    directions together, reaches its bytes, or the time since its row was created reaches
    its time. Every other peer stays connected, and nobody else is. No row is deleted, and
    the result is the number of rows that are over quota. -/
theorem quota_enforced (config : NodeConfig) (capacity : Nat) (w : World) (events : List Event)
    (usage : String → Peer.Usage) (now : Time) :
    let n := (Node.afterEvents config capacity w events).world
    let before : World := { n with table := n.table.withUsage usage, wallClock := now }
    ∃ written exceeded between after,
      before.run (Job.usageToLedgerRun config) = (.value (.ok written), between) ∧
      between.run (Job.usageValidationRun config) = (.value (.ok exceeded), after) ∧
      (∀ key, before.table.contains key = true →
        (after.table.contains key = false ↔ ∃ id s, before.ledger.Holds id s ∧ s.peerKey = key ∧
          s.Exceeds (usage key).download.toNat (usage key).upload.toNat now)) ∧
      (∀ key, after.table.contains key = true →
        after.table.peers[key]? = before.table.peers[key]?) ∧
      (∀ id, (∃ s, after.ledger.Holds id s) ↔ ∃ s, before.ledger.Holds id s) ∧
      exceeded = (after.ledger.sessions.countP fun s => decide s.OverQuota) ∧
      exceeded = before.ledger.sessions.countP fun s => decide (OverAfter n.table usage now s) := by
  intro n before
  have h : Orderly config.service n := (Kept.after config capacity w events).orderly
  have hbefore : Orderly config.service before := by
    have htable : Orderly config.service { n with table := n.table.withUsage usage } :=
      h.withTable h.service_eq fun key hkey => h.canonical key (by simpa using hkey)
    exact htable.frame rfl rfl rfl rfl
  obtain ⟨written, hsync⟩ := hbefore.completes_usageToLedgerRun
  have hbetween := hbefore.metered now before.table.statistics
  obtain ⟨table, hvalidate, hpeers⟩ := hbetween.completes_usageValidationRun
  refine ⟨written, _, _, _, hsync.run_eq, hvalidate.run_eq, ?_, ?_,
    fun id => Ledger.exists_holds_revise, rfl, countP_overQuota_metering h usage now⟩
  · intro key hkey
    have hconnected : n.table.contains key = true := by
      rwa [Peer.Table.contains_withUsage] at hkey
    rw [← any_overQuota_iff h hconnected, Peer.Table.contains_eq_isSome, hpeers]
    split
    · rename_i hany
      exact ⟨fun _ => hany, fun _ => rfl⟩
    · rename_i hany
      have hstays : before.table.peers[key]?.isSome = true := by
        rwa [← Peer.Table.contains_eq_isSome]
      exact ⟨fun hgone => absurd (hstays.symm.trans hgone) nofun, fun h => absurd h hany⟩
  · intro key hkey
    rw [Peer.Table.contains_eq_isSome, hpeers] at hkey
    rw [hpeers]
    split at hkey
    · exact nomatch hkey
    · rename_i hany
      rw [if_neg hany]
      rfl

end VpnNode.Interleaving
