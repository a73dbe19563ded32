import VpnNode.Proofs.Ledger.Usage
import VpnNode.Proofs.Time.Order

/-!
# Quotas through updates

A row is over quota by its bytes or by its time. The bytes never go down, so what is used up
stays used up. The time is measured anew by every report of usage, and it goes forward with the
clock except about a leap second. A row that is over quota by its time alone, and by less than
two seconds, can therefore be within its quotas again.

Main statement:

* `overQuota_or_lapse`: whether updates at later and later times leave a row over quota.
-/

namespace VpnNode.Ledger

open Session (amount Counted)

variable {s t r : Session} {us vs : List Update}

/-- How a row that was over quota may no longer be: its bytes are not used up, its time was
    exceeded by less than two seconds, and it was created, or its usage was reported, in a leap
    second. -/
structure Lapse (us : List Update) (s t : Session) : Prop where
  bytes : amount t.downloadBytes + amount t.uploadBytes < amount t.maxBytes
  time : s.duration.toInt < s.maxDuration.toInt + 2 * Time.nanosPerSecond
  leap : s.createdAt.isLeap ∨ ∃ u ∈ us, u.reportsUsage ∧ u.now.isLeap

/-- The duration of a row after updates, if one of them reported usage. -/
theorem Updated.duration_of_report (h : Updated us s t) {u : Update}
    (hu : (us.filter (·.reportsUsage)).getLast? = some u) :
    t.duration.toInt = min Int64.maxValue.toInt (max 0 (u.now.since s.createdAt)) := by
  rw [h.duration, hu]
  rfl

theorem Updated.duration_of_none (h : Updated us s t)
    (hnone : (us.filter (·.reportsUsage)).getLast? = none) :
    t.duration.toInt = s.duration.toInt := by
  rw [h.duration, hnone]
  rfl

/-- The last report of usage among updates. -/
theorem mem_of_getLast?_filter {u : Update}
    (hu : (us.filter (·.reportsUsage)).getLast? = some u) : u ∈ us ∧ u.reportsUsage :=
  List.mem_filter.1 (List.mem_of_getLast? hu)

/-- A row starts without usage, and updates are written into it at later and later times. If it
    is over quota after some of them, it still is after the others, or it lapsed. -/
theorem overQuota_or_lapse (hr : r.duration = 0) (hs : Counted s) (ht : Counted t)
    (hus : Updated us r s) (hvs : Updated vs s t) (hlater : ∀ u ∈ us, ∀ v ∈ vs, u.now ≤ v.now)
    (hover : s.OverQuota) : t.OverQuota ∨ ¬ t.OverQuota ∧ Lapse (us ++ vs) s t := by
  by_cases hstill : t.OverQuota
  · exact .inl hstill
  refine .inr ⟨hstill, ?_⟩
  obtain ⟨hbytes, htime⟩ := not_or.1 hstill
  rw [Nat.not_le] at hbytes
  rw [hvs.fixed.maxDuration, Int.not_le] at htime
  have hreached : s.maxDuration.toInt ≤ s.duration.toInt := by
    refine hover.resolve_left fun hused => ?_
    obtain ⟨hdownload, hupload⟩ := amount_le_of_updated hs ht hvs
    rw [hvs.fixed.maxBytes] at hbytes
    omega
  -- the time was measured by a report among the first updates, and again by one of the others
  cases hv : (vs.filter (·.reportsUsage)).getLast? with
  | none =>
    rw [hvs.duration_of_none hv] at htime
    omega
  | some v =>
    obtain ⟨hvmem, hvreports⟩ := mem_of_getLast?_filter hv
    have hmax := s.maxDuration.toInt_le
    rw [hvs.duration_of_report hv, hus.fixed.createdAt] at htime
    cases hu : (us.filter (·.reportsUsage)).getLast? with
    | none =>
      have hzero : (0 : Int64).toInt = 0 := rfl
      have hnone := hus.duration_of_none hu
      rw [hr] at hnone
      omega
    | some u =>
      obtain ⟨humem, hureports⟩ := mem_of_getLast?_filter hu
      have hduration := hus.duration_of_report hu
      have hle := hlater u humem v hvmem
      refine ⟨hbytes, ?_, ?_⟩
      · have hmissing := Time.since_lt_since_add r.createdAt hle
        omega
      · rw [hus.fixed.createdAt]
        by_contra hnone
        obtain ⟨hstart, hreports⟩ := not_or.1 hnone
        have hplain : ∀ w ∈ us ++ vs, w.reportsUsage = true → w.now.isLeap = false :=
          fun w hw hreport => Bool.eq_false_iff.2 fun hleap => hreports ⟨w, hw, hreport, hleap⟩
        have hmonotone := Time.since_le_since
          (hplain u (List.mem_append_left _ humem) hureports)
          (hplain v (List.mem_append_right _ hvmem) hvreports) (Bool.eq_false_iff.2 hstart) hle
        omega

end VpnNode.Ledger
