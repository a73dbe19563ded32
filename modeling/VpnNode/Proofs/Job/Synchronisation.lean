import VpnNode.Proofs.Job.Metering
import VpnNode.Proofs.Ledger.WellFormed

/-!
# Usage is copied once, in whatever order it is listed

A backend may list its peers in any order, list a peer more than once and under different
spellings of its key, and list peers that nobody knows. A pass that copies the counters passes
over what is on no row. A row takes the largest of the counters that are listed for it, so
neither the order nor a repetition matters.

Main statements:

* `meter_eq_normalized`: a key is looked up by its canonical form.
* `metering_normalized`: what all reports make of a row depends on the reports on that row,
  and not on their order.
* `usageToLedger_exact`: what a pass leaves in the ledger, and what it gives.
-/

namespace VpnNode.Job

open Peer (Statistic)
open Peer.Identity (canonical? canonical?_eq_some_iff canonical?_of_ok canonical?_of_error
  ofKey_key)
open Session (Counted amount nanosOfDuration)
open Simulation (World)
open Simulation.World (Completes)

variable {service : Service}

/-! ## Spellings -/

/-- A report under the canonical form of its key, if the kind of service knows the key. -/
def normalized? (service : Service) (stat : Statistic) : Option Statistic :=
  (canonical? service stat.key).map fun key => { stat with key }

theorem normalized?_of_none {stat : Statistic} (h : canonical? service stat.key = none) :
    normalized? service stat = none := by
  rw [normalized?, h]
  rfl

theorem normalized?_of_some {stat : Statistic} {key : String}
    (h : canonical? service stat.key = some key) :
    normalized? service stat = some { stat with key } := by
  rw [normalized?, h]
  rfl

/-- Metering looks a key up by its canonical form, and passes over a key without one. -/
theorem meter_eq_normalized (service : Service) (stats : List Statistic) :
    meter service stats = meter service (stats.filterMap (normalized? service)) := by
  induction stats with
  | nil => rfl
  | cons stat stats ih =>
    cases hkey : Peer.Identity.ofKey service stat.key with
    | error e =>
      have hnone := normalized?_of_none (canonical?_of_error hkey)
      rw [List.filterMap_cons_none hnone, meter, hkey]
      exact ih
    | ok i =>
      have hsome := normalized?_of_some (canonical?_of_ok hkey)
      have hafter : afterWrite service stats =
          afterWrite service (stats.filterMap (normalized? service)) := by
        funext written
        cases written with
        | error e => rfl
        | ok written => rw [afterWrite, afterWrite, ih]
      have hcanonical : Peer.Identity.ofKey service { stat with key := i.key }.key = .ok i :=
        ofKey_key hkey
      rw [List.filterMap_cons_some hsome, meter_cons hkey, hafter, meter_cons hcanonical]

theorem canonical?_of_normalized {stat : Statistic} {stats : List Statistic}
    (h : stat ∈ stats.filterMap (normalized? service)) :
    canonical? service stat.key = some stat.key := by
  obtain ⟨listed, -, hlisted⟩ := List.mem_filterMap.1 h
  obtain ⟨key, hkey, rfl⟩ := Option.map_eq_some_iff.1 hlisted
  obtain ⟨i, hi, rfl⟩ := canonical?_eq_some_iff.1 hkey
  exact canonical?_of_ok (ofKey_key hi)

/-! ## One row -/

/-- A report is on a row: its key is a spelling of the peer key of the row. -/
def isOn (service : Service) (s : Session) (stat : Statistic) : Bool :=
  canonical? service stat.key == some s.peerKey

/-- A row after the reports on it: the largest counters that they bring are written. -/
def synced (now : Time) (reports : List Statistic) (s : Session) : Session :=
  if reports = [] then s
  else s.metered ((reports.map (·.download.toNat)).foldl max 0)
    ((reports.map (·.upload.toNat)).foldl max 0) now

/-- The order of the reports does not matter. -/
theorem synced_of_perm {reports reports' : List Statistic} (h : reports.Perm reports') (now : Time)
    (s : Session) : synced now reports s = synced now reports' s := by
  unfold synced
  rw [(h.map _).foldl_eq 0, (h.map (·.upload.toNat)).foldl_eq 0]
  simp only [← List.isEmpty_iff, h.isEmpty_eq]

theorem foldl_metered (now : Time) (reports : List Statistic) (s : Session) (d u : Nat) :
    reports.foldl (fun s stat => s.metered stat.download.toNat stat.upload.toNat now)
        (s.metered d u now) =
      s.metered ((reports.map (·.download.toNat)).foldl max d)
        ((reports.map (·.upload.toNat)).foldl max u) now := by
  induction reports generalizing d u with
  | nil => rfl
  | cons stat reports ih =>
    rw [List.foldl_cons, Session.metered_metered]
    exact ih _ _

/-- The reports on a row, one after the other, write the largest counters. -/
theorem foldl_metered_eq_synced (now : Time) (reports : List Statistic) (s : Session) :
    reports.foldl (fun s stat => s.metered stat.download.toNat stat.upload.toNat now) s =
      synced now reports s := by
  cases reports with
  | nil => rfl
  | cons stat reports =>
    rw [List.foldl_cons, foldl_metered, synced, if_neg (List.cons_ne_nil _ _), List.map_cons,
      List.map_cons, List.foldl_cons, List.foldl_cons, Nat.zero_max, Nat.zero_max]

/-- What all reports make of a row is what those on the row make of it. -/
theorem metering_normalized (now : Time) (stats : List Statistic) (s : Session) :
    metering now (stats.filterMap (normalized? service)) s =
      synced now (stats.filter (isOn service s)) s := by
  rw [← foldl_metered_eq_synced]
  induction stats generalizing s with
  | nil => rfl
  | cons stat stats ih =>
    cases hkey : canonical? service stat.key with
    | none =>
      rw [List.filterMap_cons_none (normalized?_of_none hkey),
        List.filter_cons_of_neg (by simp [isOn, hkey])]
      exact ih s
    | some key =>
      rw [List.filterMap_cons_some (normalized?_of_some hkey), metering, List.foldl_cons]
      by_cases hon : s.peerKey = key
      · rw [List.filter_cons_of_pos (by simp [isOn, hkey, hon]), List.foldl_cons,
          meterOne_of_eq hon]
        -- the write keeps the peer key, so the same reports are on the row after it
        exact ih _
      · rw [List.filter_cons_of_neg (by simp [isOn, hkey, Ne.symm hon]), meterOne_of_ne hon]
        exact ih s

/-- What a pass makes of a row on which there are reports. -/
structure Synchronised (now : Time) (reports : List Statistic) (s t : Session) : Prop where
  fixed : s.Fixed t
  signature : t.signature = s.signature
  /-- A counter is the largest of its number at the start and those that were reported. -/
  downloaded : ∃ n, s.downloaded = .ok n ∧
    t.downloaded = .ok ((reports.map (·.download.toNat)).foldl max n)
  uploaded : ∃ n, s.uploaded = .ok n ∧
    t.uploaded = .ok ((reports.map (·.upload.toNat)).foldl max n)
  /-- A row with reports is dated anew. -/
  dated : reports ≠ [] → t.duration = nanosOfDuration (s.elapsed now) ∧ t.updatedAt = now
  /-- A row without reports stays as it is. -/
  unreported : reports = [] → t = s

/-- A counter is raised by the largest of some numbers. -/
theorem counter_raise {s : Session} {field text : String} (h : (Decimal.parse? text).isSome)
    (ns : List Nat) : s.counter field (Session.raise (amount text) text (ns.foldl max 0)) =
      .ok (ns.foldl max (amount text)) := by
  have hsome := Session.parse?_raise h (ns.foldl max 0)
  have hmax : ns.foldl max (max (amount text) 0) = max (amount text) (ns.foldl max 0) :=
    List.foldl_assoc
  rw [Session.counter_eq _ _ (Option.isSome_of_eq_some hsome), Session.amount_raise h, ← hmax,
    Nat.max_zero]

theorem synchronised_synced {s : Session} (h : Counted s) (now : Time) (reports : List Statistic) :
    Synchronised now reports s (synced now reports s) := by
  have hdownload := Session.counter_eq s "download_bytes" h.download
  have hupload := Session.counter_eq s "upload_bytes" h.upload
  unfold synced
  split
  · rename_i hnone
    subst hnone
    exact ⟨.refl s, rfl, ⟨_, hdownload, hdownload⟩, ⟨_, hupload, hupload⟩, nofun, fun _ => rfl⟩
  · rename_i hsome
    refine ⟨⟨rfl, rfl, rfl, rfl, rfl, rfl, rfl, rfl⟩, rfl, ⟨_, hdownload, ?_⟩, ⟨_, hupload, ?_⟩,
      fun _ => ⟨rfl, rfl⟩, fun hnone => absurd hnone hsome⟩
    · exact counter_raise h.download _
    · exact counter_raise h.upload _

/-! ## A pass -/

/-- A report is counted if its key is a spelling of the peer key of some row. -/
theorem countP_normalized {l : Ledger} (h : l.Indexed) (service : Service)
    (stats : List Statistic) :
    (stats.filterMap (normalized? service)).countP (fun stat => (l.rowOf? stat.key).isSome) =
      stats.countP fun stat => l.sessions.any fun s => isOn service s stat := by
  rw [List.countP_filterMap]
  refine List.countP_congr fun stat _ => ?_
  rw [normalized?, List.any_eq_true]
  cases hkey : canonical? service stat.key with
  | none => simp [isOn, hkey]
  | some key =>
    show (l.rowOf? key).isSome = true ↔ _
    rw [Option.isSome_iff_exists]
    refine exists_congr fun s => ?_
    rw [h.rowOf?_eq_some_iff, h.mem_sessions, isOn, hkey, beq_iff_eq, Option.some.injEq, eq_comm]

/-- A pass that copies the counters of the backend, on a ledger to which any operations have
    led, with a backend that lists any peers, in any order, under any keys and as often as it
    likes. It gives the number of the reports that are on a row. A row with reports takes the
    largest of its own counters and those that were reported for it, and is dated anew; a row
    without a report stays as it is, and so does everything else. All this is the same for every
    order of the reports. -/
theorem usageToLedger_exact (ops : List Ledger.Operation) (w : World) (config : NodeConfig)
    (stats : List Statistic) :
    let l := Ledger.after ops
    (∀ s, s ∈ l.sessions ↔ l.Holds s.id s) ∧
    ∃ written : Session → Session,
      (∀ id s, l.Holds id s →
        Synchronised w.wallClock (stats.filter (isOn config.service s)) s (written s)) ∧
      ∀ listed : List Statistic, listed.Perm stats →
        let before := { w with ledger := l, reported := some listed, faults := [] }
        before.run (usageToLedgerRun config) =
          (.value (.ok (stats.countP fun stat => l.sessions.any fun s =>
            isOn config.service s stat)), { before with ledger := l.revise written }) := by
  intro l
  have h : l.WellFormed := .after ops
  refine ⟨fun s => h.indexed.mem_sessions,
    fun s => synced w.wallClock (stats.filter (isOn config.service s)) s,
    fun id s hs => synchronised_synced (h.counted id s hs) _ _, ?_⟩
  intro listed hlisted before
  have hmeter := completes_meter (w := before) (listed.filterMap (normalized? config.service))
    h.indexed h.counted fun stat => canonical?_of_normalized
  rw [← meter_eq_normalized] at hmeter
  have hpass : Completes (usageToLedgerRun config) before _ _ [] :=
    .ask rfl (World.perform_peerStatistics rfl) hmeter
  have hsame : metering before.wallClock (listed.filterMap (normalized? config.service)) =
      fun s => synced w.wallClock (stats.filter (isOn config.service s)) s := by
    funext s
    rw [metering_normalized, synced_of_perm (hlisted.filter _)]
  rw [hpass.run_eq, countP_normalized h.indexed, hlisted.countP_eq, hsame]
  rfl

end VpnNode.Job
