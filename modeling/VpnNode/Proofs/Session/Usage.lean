import VpnNode.Ledger.Filter
import VpnNode.Proofs.Ledger.Update
import VpnNode.Proofs.Session.Validate

/-!
# Usage and quotas in numbers

The counters of a row are texts. In a row that was checked before it was stored they are
numerals, and stay so whatever is reported. What a report writes and when a row is over
quota can then be said in numbers.

Main statements:

* `applyUsage_of_parse?`: what a report of one direction or both writes.
* `carries_of_parse?`: the counters that are stored are the ones that are read and sent.
* `Counted.apply`: an update of a row with numerals leaves a row with numerals.
* `apply_usage`: what an update with a report of both directions writes.
* `isOverQuota_eq`: when a row is over quota.
* `overQuota_metered_iff`: when a row is over quota after a report.
-/

namespace VpnNode

namespace Session

/-- The counters and the byte quota are numerals. -/
structure Counted (s : Session) : Prop where
  download : (Decimal.parse? s.downloadBytes).isSome
  upload : (Decimal.parse? s.uploadBytes).isSome
  quota : (Decimal.parse? s.maxBytes).isSome

/-- The number that a text stands for; 0 if it is no numeral. -/
def amount (text : String) : Nat := (Decimal.parse? text).getD 0

theorem parse?_eq_amount {text : String} (h : (Decimal.parse? text).isSome) :
    Decimal.parse? text = some (amount text) := by
  obtain ⟨n, hn⟩ := Option.isSome_iff_exists.1 h
  rw [amount, hn]
  rfl

theorem counter_of_parse? (s : Session) (field : String) {text : String} {n : Nat}
    (h : Decimal.parse? text = some n) : s.counter field text = .ok n := by
  rw [counter, h]

theorem counter_eq (s : Session) (field : String) {text : String}
    (h : (Decimal.parse? text).isSome) : s.counter field text = .ok (amount text) :=
  counter_of_parse? s field (parse?_eq_amount h)

/-- A counter that is raised is a numeral, for the larger of the two numbers. -/
theorem parse?_raise {text : String} (h : (Decimal.parse? text).isSome) (reported : Nat) :
    Decimal.parse? (raise (amount text) text reported) = some (max (amount text) reported) := by
  unfold raise
  split
  · rename_i hlt
    rw [Decimal.parse?_render, Nat.max_eq_right (Nat.le_of_lt hlt)]
  · rename_i hle
    rw [parse?_eq_amount h, Nat.max_eq_left (Nat.not_lt.1 hle)]

theorem amount_raise {text : String} (h : (Decimal.parse? text).isSome) (reported : Nat) :
    amount (raise (amount text) text reported) = max (amount text) reported := by
  rw [amount, parse?_raise h]
  rfl

/-- A counter that is raised twice is raised by the larger of the two reports. -/
theorem raise_raise (text : String) (m n : Nat) :
    raise (amount (raise (amount text) text m)) (raise (amount text) text m) n =
      raise (amount text) text (max m n) := by
  by_cases hm : amount text < m
  · have hraised : amount (Decimal.render m) = m := by
      rw [amount, Decimal.parse?_render]
      rfl
    rw [show raise (amount text) text m = Decimal.render m from if_pos hm, hraised]
    unfold raise
    rw [if_pos (Nat.lt_of_lt_of_le hm (Nat.le_max_left m n))]
    rcases Nat.lt_or_ge m n with hn | hn
    · rw [if_pos hn, Nat.max_eq_right (Nat.le_of_lt hn)]
    · rw [if_neg (Nat.not_lt.2 hn), Nat.max_eq_left hn]
  · rw [show raise (amount text) text m = text from if_neg hm]
    unfold raise
    rcases Nat.lt_or_ge (amount text) n with hn | hn
    · have hmn : m ≤ n := Nat.le_trans (Nat.not_lt.1 hm) (Nat.le_of_lt hn)
      rw [Nat.max_eq_right hmn]
    · rw [if_neg (Nat.not_lt.2 hn), if_neg (Nat.not_lt.2 (Nat.max_le.2 ⟨Nat.not_lt.1 hm, hn⟩))]

/-- A row that was checked has numerals. -/
theorem counted_of_validate {s : Session} (h : s.validate = .ok ()) : Counted s := by
  obtain ⟨-, -, -, -, hdownload, hupload, hquota, -⟩ := validate_eq_ok_iff.1 h
  exact ⟨hdownload, hupload, hquota⟩

/-! ## Reports of usage -/

/-- The text of a counter after a report, if there is one. -/
def revised (stored : Nat) (text : String) : Option Nat → String
  | none => text
  | some n => raise stored text n

/-- A counter that is revised is a numeral, for the larger of the two numbers. -/
theorem parse?_revised {text : String} {stored : Nat} (h : Decimal.parse? text = some stored)
    (reported : Option Nat) :
    Decimal.parse? (revised stored text reported) = some (max stored (reported.getD 0)) := by
  cases reported with
  | none => rwa [Option.getD_none, Nat.max_zero]
  | some n =>
    have hamount : amount text = stored := by rw [amount, h, Option.getD_some]
    rw [← hamount]
    exact parse?_raise (Option.isSome_of_eq_some h) n

theorem applyDownload_of_parse? {s : Session} {down : Nat}
    (h : Decimal.parse? s.downloadBytes = some down) (download : Option Nat) :
    s.applyDownload download =
      .ok { s with downloadBytes := revised down s.downloadBytes download } := by
  cases download with
  | none => rfl
  | some n =>
    rw [applyDownload, downloaded, counter_of_parse? s _ h]
    rfl

theorem applyUpload_of_parse? {s : Session} {up : Nat}
    (h : Decimal.parse? s.uploadBytes = some up) (upload : Option Nat) :
    s.applyUpload upload = .ok { s with uploadBytes := revised up s.uploadBytes upload } := by
  cases upload with
  | none => rfl
  | some n =>
    rw [applyUpload, uploaded, counter_of_parse? s _ h]
    rfl

/-- A report of one direction at least revises both counters and writes the duration anew. -/
theorem applyUsage_of_parse? {s : Session} {down up : Nat}
    (hdown : Decimal.parse? s.downloadBytes = some down)
    (hup : Decimal.parse? s.uploadBytes = some up) {download upload : Option Nat}
    (hreport : ¬(download.isNone ∧ upload.isNone)) (now : Time) :
    s.applyUsage download upload now = .ok { s with
      downloadBytes := revised down s.downloadBytes download
      uploadBytes := revised up s.uploadBytes upload
      duration := nanosOfDuration (s.elapsed now)
      updatedAt := now } := by
  let t : Session := { s with downloadBytes := revised down s.downloadBytes download }
  have hkept : Decimal.parse? t.uploadBytes = some up := hup
  rw [applyUsage, if_neg hreport, applyDownload_of_parse? hdown]
  show (t.applyUpload upload >>= _) = _
  rw [applyUpload_of_parse? hkept]
  rfl

/-- A row after a report of usage. -/
def metered (s : Session) (download upload : Nat) (now : Time) : Session :=
  { s with
    downloadBytes := raise (amount s.downloadBytes) s.downloadBytes download
    uploadBytes := raise (amount s.uploadBytes) s.uploadBytes upload
    duration := nanosOfDuration (s.elapsed now)
    updatedAt := now }

/-- Of two reports at the same time the larger counters stay. -/
theorem metered_metered (s : Session) (d u d' u' : Nat) (now : Time) :
    (s.metered d u now).metered d' u' now = s.metered (max d d') (max u u') now := by
  unfold metered
  dsimp only
  rw [raise_raise, raise_raise]
  rfl

theorem Counted.applyUsage {s t : Session} (h : Counted s) {download upload : Option Nat}
    {now : Time} (ht : s.applyUsage download upload now = .ok t) : Counted t := by
  have hdown := parse?_eq_amount h.download
  have hup := parse?_eq_amount h.upload
  by_cases hnone : download.isNone ∧ upload.isNone
  · rw [Session.applyUsage, if_pos hnone] at ht
    cases ht
    exact h
  · rw [applyUsage_of_parse? hdown hup hnone] at ht
    cases ht
    exact ⟨Option.isSome_of_eq_some (parse?_revised hdown download),
      Option.isSome_of_eq_some (parse?_revised hup upload), h.quota⟩

/-- An update of a row with numerals leaves a row with numerals. -/
theorem Counted.apply {s t : Session} (h : Counted s) {u : Ledger.Update}
    (ht : u.apply s = .ok t) : Counted t := by
  unfold Ledger.Update.apply at ht
  split at ht
  · cases ht
  · rename_i s₁ hs
    cases ht
    have hcounted := h.applyUsage hs
    exact ⟨hcounted.download, hcounted.upload, hcounted.quota⟩

/-- A report of usage raises both counters and writes the duration anew. -/
theorem apply_usage {s : Session} (h : Counted s) (download upload : Nat) (now : Time) :
    (Ledger.Update.usage download upload now).apply s = .ok (s.metered download upload now) := by
  have husage : s.applyUsage (some download) (some upload) now =
      .ok (s.metered download upload now) :=
    applyUsage_of_parse? (parse?_eq_amount h.download) (parse?_eq_amount h.upload) (by simp) now
  unfold Ledger.Update.apply Ledger.Update.usage
  dsimp only
  rw [husage]
  rfl

/-! ## Reading numerals -/

/-- The session has these counters: its texts are numerals of them, they are read from it, and
    its report to the chain carries their numerals. -/
structure Carries (s : Session) (down up : Nat) : Prop where
  stored : Decimal.parse? s.downloadBytes = some down ∧ Decimal.parse? s.uploadBytes = some up
  downloaded : s.downloaded = .ok down
  uploaded : s.uploaded = .ok up
  bytes : s.bytes = .ok (down + up)
  sent : s.usageReport = .ok (.updateSession {
    nodeAddress := s.nodeAddress
    sessionId := s.id
    downloadBytes := Decimal.render down
    uploadBytes := Decimal.render up
    duration := s.duration
    signature := s.signature })

/-- The counters that are stored are the ones that are read and sent. -/
theorem carries_of_parse? {s : Session} {down up : Nat}
    (hdown : Decimal.parse? s.downloadBytes = some down)
    (hup : Decimal.parse? s.uploadBytes = some up) : s.Carries down up := by
  have hdownloaded : s.downloaded = .ok down := counter_of_parse? s _ hdown
  have huploaded : s.uploaded = .ok up := counter_of_parse? s _ hup
  refine ⟨⟨hdown, hup⟩, hdownloaded, huploaded, ?_, ?_⟩
  · rw [bytes, hdownloaded, huploaded]
    rfl
  · rw [usageReport, hdownloaded, huploaded]
    rfl

theorem Counted.carries {s : Session} (h : Counted s) :
    s.Carries (amount s.downloadBytes) (amount s.uploadBytes) :=
  carries_of_parse? (parse?_eq_amount h.download) (parse?_eq_amount h.upload)

theorem bytes_eq {s : Session} (h : Counted s) :
    s.bytes = .ok (amount s.downloadBytes + amount s.uploadBytes) := h.carries.bytes

theorem byteQuota_eq {s : Session} (h : Counted s) : s.byteQuota = .ok (amount s.maxBytes) :=
  counter_eq s _ h.quota

/-- The report of a row with numerals carries its counters. -/
theorem usageReport_eq {s : Session} (h : Counted s) :
    s.usageReport = .ok (.updateSession {
      nodeAddress := s.nodeAddress
      sessionId := s.id
      downloadBytes := Decimal.render (amount s.downloadBytes)
      uploadBytes := Decimal.render (amount s.uploadBytes)
      duration := s.duration
      signature := s.signature }) := h.carries.sent

/-! ## Quotas -/

/-- A row is over quota: what it has used reaches its bytes or its time. -/
def OverQuota (s : Session) : Prop :=
  amount s.maxBytes ≤ amount s.downloadBytes + amount s.uploadBytes ∨
    s.maxDuration.toInt ≤ s.duration.toInt

instance (s : Session) : Decidable s.OverQuota := by unfold OverQuota; infer_instance

theorem isOverQuota_eq {s : Session} (h : Counted s) : s.isOverQuota = .ok (decide s.OverQuota) := by
  have hle : s.maxDuration ≤ s.duration ↔ s.maxDuration.toInt ≤ s.duration.toInt :=
    Int64.le_iff_toInt_le
  unfold isOverQuota
  rw [bytes_eq h, byteQuota_eq h]
  show Except.ok (decide _ || decide _) = _
  rw [← Bool.decide_or]
  exact congrArg Except.ok (decide_eq_decide.2 (or_congr_right hle))

/-- When a report of usage leaves a row over quota: the larger of what is stored and what
    is reported, in both directions together, reaches the byte quota, or the nanoseconds
    since the row was created, none if that is still to come and no more than 63 bits hold,
    reach the time. -/
def Exceeds (s : Session) (download upload : Nat) (now : Time) : Prop :=
  amount s.maxBytes ≤ max (amount s.downloadBytes) download + max (amount s.uploadBytes) upload ∨
    s.maxDuration.toInt ≤ min (max 0 (now.since s.createdAt)) Int64.maxValue.toInt

instance (s : Session) (download upload : Nat) (now : Time) :
    Decidable (s.Exceeds download upload now) := by unfold Exceeds; infer_instance

theorem overQuota_metered_iff {s : Session} (h : Counted s) (download upload : Nat) (now : Time) :
    (s.metered download upload now).OverQuota ↔ s.Exceeds download upload now := by
  have hduration : (s.metered download upload now).duration.toInt =
      min (max 0 (now.since s.createdAt)) Int64.maxValue.toInt := by
    show (nanosOfDuration (s.elapsed now)).toInt = _
    rw [toInt_nanosOfDuration, elapsed, Int.ofNat_toNat, Int.max_comm]
  unfold OverQuota Exceeds
  rw [hduration]
  show amount s.maxBytes ≤ amount (raise _ _ _) + amount (raise _ _ _) ∨ _ ↔ _
  rw [amount_raise h.download, amount_raise h.upload]
  rfl

end Session

end VpnNode
