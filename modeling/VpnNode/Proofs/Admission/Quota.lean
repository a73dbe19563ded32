import VpnNode.Proofs.Admission.Decision
import VpnNode.Proofs.Ledger.Quota
import VpnNode.Time.Text

/-!
# The quotas of an admitted client

The row of an admitted client starts without usage. Once its client has used up a quota, later
reports of usage, however low, leave it over quota; unless only its time was up, by less than
two seconds, and a leap second took part.

Main statements:

* `overQuota_lapses_only_at_leap_second`: what becomes of a row over quota.
* `overQuota_lapses`: about the leap second at the end of 2016 a row is over quota and then no
  longer.
-/

namespace VpnNode.Admission

open Ledger (Operation Stays Update updatesOf reached_by_updateMany_all holds_perform_insert)

/-- A client is admitted to a ledger, whatever came before, and its row stays in the ledger
    through more operations; what they write into the row carries times that do not go back.
    Then the quotas of the row can be checked at any moment. If the row is over quota at some
    moment, it is over quota at each later one, or it is one that lapsed: its bytes are not used
    up, its time was exceeded by less than two seconds, and it was created, or its usage was
    reported, in a leap second. -/
theorem overQuota_lapses_only_at_leap_second (before ops later : List Operation)
    (service : Service) (request : Request) (remote : Chain.Session) (quota : Nat) (key : String)
    (now : Time) :
    let row := newSession service request remote quota key now
    let start := Ledger.after (before ++ [.insert row])
    let updates := updatesOf row.id start (ops ++ later)
    start.Holds row.id row → Stays row.id start (ops ++ later) →
      updates.Pairwise (fun u v => u.now ≤ v.now) →
      ∃ s t, (ops.foldl Ledger.perform start).Holds row.id s ∧
        ((ops ++ later).foldl Ledger.perform start).Holds row.id t ∧
        s.isOverQuota = .ok (decide s.OverQuota) ∧ t.isOverQuota = .ok (decide t.OverQuota) ∧
        (s.OverQuota → t.OverQuota ∨ ¬ t.OverQuota ∧ Ledger.Lapse updates s t) := by
  intro row start updates hrow hstays htimes
  have hstart : start.WellFormed := .after _
  have hmiddle := hstart.foldl_perform ops
  obtain ⟨hfirst, hsecond⟩ := Ledger.stays_append.1 hstays
  obtain ⟨s, hs, hus⟩ := hstart.updated_of_stays hrow hfirst
  obtain ⟨t, ht, hvs⟩ := hmiddle.updated_of_stays hs hsecond
  have hcounted := hmiddle.counted _ s hs
  have hcounted' := (hmiddle.foldl_perform later).counted _ t ht
  have hupdates : updates = updatesOf row.id start ops ++
      updatesOf row.id (ops.foldl Ledger.perform start) later := Ledger.updatesOf_append
  rw [hupdates] at htimes ⊢
  rw [List.foldl_append]
  exact ⟨s, t, hs, ht, Session.isOverQuota_eq hcounted, Session.isOverQuota_eq hcounted',
    Ledger.overQuota_or_lapse rfl hcounted hcounted' hus hvs (List.pairwise_append.1 htimes).2.2⟩

/-! ## A sample -/

/-- The sample client may use the backend for a day and 300 milliseconds. -/
def sampleGrant : Chain.Session := { sampleSession with maxDuration := 86400300000000 }

/-- Midnight before the last leap second. -/
def eve : Time := (Time.parse? "2016-12-31T00:00:00Z").get (by decide +kernel)

/-- The middle of the leap second. -/
def leapSecond : Time := (Time.parse? "2016-12-31T23:59:60.5Z").get (by decide +kernel)

/-- Midnight after it. -/
def newYear : Time := (Time.parse? "2017-01-01T00:00:00Z").get (by decide +kernel)

/-- The row of the sample client. -/
def sampleRow : Session :=
  newSession .wireguard sampleRequest sampleGrant 1000000000 sampleRequest.peerKey eve

theorem validate_sampleRow : sampleRow.validate = .ok () := by
  have hrow : sampleRow =
      grantedRow sampleNode sampleRequest sampleGrant 1000000000 sampleRequest.peerKey eve :=
    newSession_eq sampleNode rfl _ _ _
  have haccount : Session.FitAddress sampleGrant.accountAddress :=
    Session.fitAddress_of_isOk (by decide) (by decide +kernel)
  have hnode : Session.FitAddress sampleGrant.nodeAddress :=
    Session.fitAddress_of_isOk (by decide) (by decide +kernel)
  rw [hrow]
  exact validate_grantedRow_iff.2 ⟨by decide, by decide, haccount, hnode, by decide +kernel⟩

/-- The sample client is admitted to an empty ledger, and usage is reported twice. -/
theorem reported_twice {u v : Update} (hu : u.validate = .ok ()) (hv : v.validate = .ok ())
    (hle : u.now ≤ v.now) :
    let start := Ledger.after [.insert sampleRow]
    let ops := [Operation.updateMany .all u]
    let later := [Operation.updateMany .all v]
    start.Holds sampleRow.id sampleRow ∧ Stays sampleRow.id start (ops ++ later) ∧
      (updatesOf sampleRow.id start (ops ++ later)).Pairwise (fun u v => u.now ≤ v.now) ∧
      (ops.foldl Ledger.perform start).Holds sampleRow.id (u.written sampleRow) ∧
      ((ops ++ later).foldl Ledger.perform start).Holds sampleRow.id
        (v.written (u.written sampleRow)) := by
  intro start ops later
  have h : start.WellFormed := .after _
  have hstart : start = Ledger.empty.perform (.insert sampleRow) := by
    simp only [start, Ledger.after, List.foldl_cons, List.foldl_nil]
  have hs : start.Holds sampleRow.id sampleRow := by
    rw [hstart]
    exact holds_perform_insert validate_sampleRow
  obtain ⟨hs₁, hreached₁⟩ := reached_by_updateMany_all h hs hu
  obtain ⟨hs₂, hreached₂⟩ := reached_by_updateMany_all (h.perform _) hs₁ hv
  have hupdates : updatesOf sampleRow.id start (ops ++ later) = [u, v] := by
    show updatesOf sampleRow.id start [.updateMany .all u, .updateMany .all v] = [u, v]
    rw [updatesOf, hreached₁, updatesOf, hreached₂]
    rfl
  refine ⟨hs, ⟨⟨_, hs⟩, ⟨_, hs₁⟩, _, hs₂⟩, ?_, hs₁, hs₂⟩
  rw [hupdates]
  exact List.pairwise_pair.2 hle

/-- The sample client has used up its bytes, and stays over quota when the backend has started
    to count anew. -/
theorem overQuota_of_restarted_backend :
    let start := Ledger.after [.insert sampleRow]
    ∃ t, ([Operation.updateMany .all (.usage 600000000 400000000 eve),
        .updateMany .all (.usage 5 7 newYear)].foldl Ledger.perform start).Holds sampleRow.id t ∧
      t.isOverQuota = .ok true := by
  intro start
  have hle : eve ≤ newYear := by decide +kernel
  obtain ⟨hrow, hstays, htimes, hs₁, ht₁⟩ :=
    reported_twice (u := .usage 600000000 400000000 eve) (v := .usage 5 7 newYear) rfl rfl hle
  obtain ⟨s, t, hs, ht, -, hquota, hover⟩ := overQuota_lapses_only_at_leap_second []
    [.updateMany .all (.usage 600000000 400000000 eve)] [.updateMany .all (.usage 5 7 newYear)]
    .wireguard sampleRequest sampleGrant 1000000000 sampleRequest.peerKey eve hrow hstays htimes
  have hused : s.OverQuota := by
    rw [hs.unique hs₁]
    decide +kernel
  refine ⟨t, ht, ?_⟩
  obtain hstill | ⟨-, hbytes, -, -⟩ := hover hused
  · rw [hquota, decide_eq_true hstill]
  · rw [ht.unique ht₁] at hbytes
    exact absurd hbytes (by decide +kernel)

/-- The sample client is over its time in the middle of the leap second at the end of 2016, and
    half a second later it is not. -/
theorem overQuota_lapses :
    let start := Ledger.after [.insert sampleRow]
    let ops := [Operation.updateMany .all (.usage 0 0 leapSecond)]
    let later := [Operation.updateMany .all (.usage 0 0 newYear)]
    start.Holds sampleRow.id sampleRow ∧ Stays sampleRow.id start (ops ++ later) ∧
      (updatesOf sampleRow.id start (ops ++ later)).Pairwise (fun u v => u.now ≤ v.now) ∧
      ∃ s t, (ops.foldl Ledger.perform start).Holds sampleRow.id s ∧
        ((ops ++ later).foldl Ledger.perform start).Holds sampleRow.id t ∧
        s.isOverQuota = .ok true ∧ t.isOverQuota = .ok false := by
  have hle : leapSecond ≤ newYear := by decide +kernel
  obtain ⟨hrow, hstays, htimes, hs, ht⟩ :=
    reported_twice (u := .usage 0 0 leapSecond) (v := .usage 0 0 newYear) rfl rfl hle
  exact ⟨hrow, hstays, htimes, _, _, hs, ht, by decide +kernel, by decide +kernel⟩

end VpnNode.Admission
