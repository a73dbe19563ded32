import VpnNode.Ledger.Image
import VpnNode.Proofs.Json.Text
import VpnNode.Proofs.Time.Text

/-!
# Stored sessions are read back

Main statements:

* `decode?_encode`: a session with times of the years 0 to 9999 is read back from its stored
  text.
* `exists_decode?_encode`: whatever its leap seconds are, its text can be read.
-/

namespace VpnNode.Session

open Json

/-! ## Members -/

theorem integer_eq {lo hi n : Int} (h : lo ≤ n ∧ n ≤ hi) :
    Reader.integer lo hi (.number (some (.integer n))) = .ok n := if_pos h

theorem uint64_toNat (n : UInt64) : Reader.uint64 (.number (some (.integer n.toNat))) = .ok n := by
  have hlt := n.toNat_lt
  have hsize : (UInt64.size : Int) = 18446744073709551616 := rfl
  unfold Reader.uint64
  rw [integer_eq (by omega)]
  show Except.ok (UInt64.ofNat n.toNat) = _
  rw [UInt64.ofNat_toNat]

theorem int64_toInt (n : Int64) : Reader.int64 (.number (some (.integer n.toInt))) = .ok n := by
  unfold Reader.int64
  rw [integer_eq ⟨n.minValue_le_toInt, n.toInt_le⟩]
  show Except.ok (Int64.ofInt n.toInt) = _
  rw [Int64.ofInt_toInt]

theorem spelled_eq {parse? : String → Option α} {text : String} {a : α}
    (h : parse? text = some a) : Reader.spelled parse? (.string (some text)) = .ok a := by
  show (parse? text).elim (Except.error Flaw.mismatch) Except.ok = _
  rw [h]
  rfl

theorem caseName_eq {parse? : String → Option α} {text : String} {a : α}
    (h : parse? text = some a) : Reader.caseName parse? (.string (some text)) = .ok a := by
  show (parse? text).elim (Except.error Flaw.mismatch) Except.ok = _
  rw [h]
  rfl

/-- The members of a stored session, with the times as they are read. -/
theorem reads_record (s : Session) {createdAt updatedAt : Time}
    (hcreated : Time.parse? s.createdAt.render = some createdAt)
    (hupdated : Time.parse? s.updatedAt.render = some updatedAt) :
    record.Reads (Source.ofMembers [
      ("id", .ofNat s.id.toNat),
      ("account_address", .string s.accountAddress),
      ("node_address", .string s.nodeAddress),
      ("download_bytes", .string s.downloadBytes),
      ("upload_bytes", .string s.uploadBytes),
      ("max_bytes", .string s.maxBytes),
      ("duration", .ofInt s.duration.toInt),
      ("max_duration", .ofInt s.maxDuration.toInt),
      ("signature", .string s.signature),
      ("peer_key", .string s.peerKey),
      ("service_type", .string s.service.name),
      ("created_at", .string s.createdAt.render),
      ("updated_at", .string s.updatedAt.render)]) { s with createdAt, updatedAt } := by
  have htext : ∀ text, Reader.text (.string (some text)) = .ok text := fun _ => rfl
  exact (Record.Reads.pure Session.mk).required "id" (by simp) (uint64_toNat s.id)
    |>.required "account_address" (by simp) (htext s.accountAddress)
    |>.required "node_address" (by simp) (htext s.nodeAddress)
    |>.required "download_bytes" (by simp) (htext s.downloadBytes)
    |>.required "upload_bytes" (by simp) (htext s.uploadBytes)
    |>.required "max_bytes" (by simp) (htext s.maxBytes)
    |>.required "duration" (by simp) (int64_toInt s.duration)
    |>.required "max_duration" (by simp) (int64_toInt s.maxDuration)
    |>.required "signature" (by simp) (htext s.signature)
    |>.required "peer_key" (by simp) (htext s.peerKey)
    |>.required "service_type" (by simp) (caseName_eq (Service.ofName?_name s.service))
    |>.required "created_at" (by simp) (spelled_eq hcreated)
    |>.required "updated_at" (by simp) (spelled_eq hupdated)

/-! ## The whole text -/

theorem isWhole_uint64 (n : UInt64) : Source.IsWhole (.ofNat n.toNat) := by
  have hlt := n.toNat_lt
  have hmin : Int64.minValue.toInt = -9223372036854775808 := rfl
  have hsize : UInt64.size = 18446744073709551616 := rfl
  exact ⟨by omega, by omega⟩

theorem isWhole_toJson (s : Session) : Source.IsWhole s.toJson := by
  have hint : ∀ n : Int64, Source.IsWhole (.ofInt n.toInt) := fun n => by
    have hle := n.toInt_le
    have hmax : Int64.maxValue.toInt = 9223372036854775807 := rfl
    have hsize : UInt64.size = 18446744073709551616 := rfl
    exact ⟨n.minValue_le_toInt, by omega⟩
  exact ⟨isWhole_uint64 s.id, trivial, trivial, trivial, trivial, trivial, hint _, hint _, trivial, trivial,
    trivial, trivial, trivial, trivial⟩

/-- The text of a session can be read if its times can. -/
theorem decode?_encode_eq (s : Session) {createdAt updatedAt : Time}
    (hcreated : Time.parse? s.createdAt.render = some createdAt)
    (hupdated : Time.parse? s.updatedAt.render = some updatedAt) :
    decode? s.encode = some { s with createdAt, updatedAt } := by
  have hread : record.read (Source.ofJson s.toJson) = .ok { s with createdAt, updatedAt } :=
    (s.reads_record hcreated hupdated).read
  unfold decode? encode Reader.ofText?
  rw [Source.ofText?_render s.isWhole_toJson, Option.bind_some, hread]
  rfl

/-- A session is read back from its stored text. -/
theorem decode?_encode {s : Session} (hcreated : s.createdAt.IsPlain)
    (hupdated : s.updatedAt.IsPlain) : decode? s.encode = some s :=
  s.decode?_encode_eq (Time.parse?_render hcreated) (Time.parse?_render hupdated)

/-- The stored text of a session can be read. -/
theorem exists_decode?_encode {s : Session} (hcreated : s.createdAt.IsCommon)
    (hupdated : s.updatedAt.IsCommon) : ∃ s', decode? s.encode = some s' := by
  obtain ⟨createdAt, hcreated⟩ := Time.exists_parse?_render hcreated
  obtain ⟨updatedAt, hupdated⟩ := Time.exists_parse?_render hupdated
  exact ⟨_, s.decode?_encode_eq hcreated hupdated⟩

end VpnNode.Session
