import VpnNode.Admission
import VpnNode.Proofs.Session.Validate

/-!
# The checks of an admission

When each check of an admission passes, and when the row of an admitted client may be
stored.

Main statements:

* `checkRequest_eq_ok_iff`, `checkRemote_eq_ok_iff`, `byteQuota_eq_ok_iff`: when the
  checks pass.
* `accept_eq`: an admission, check by check.
* `newSession_eq`: the row of an admitted client, field by field.
* `validate_grantedRow_iff`: when that row may be stored.
-/

namespace VpnNode.Admission

/-! ## Checks -/

theorem checkRequest_eq_ok_iff {service : Service} {r : Request} {key : String} :
    checkRequest service r = .ok key ↔ r.sessionId ≠ 0 ∧ (Base64.decode r.signature).isOk ∧
      ∃ i, Peer.Identity.ofKey service r.peerKey = .ok i ∧ i.key = key := by
  unfold checkRequest
  by_cases hid : r.sessionId = 0
  · simp [hid, bind, Except.bind, throw, throwThe, MonadExceptOf.throw]
  · simp only [hid, if_false, ne_eq, not_false_iff, true_and]
    cases Base64.decode r.signature with
    | error fault =>
      simp [throw, throwThe, MonadExceptOf.throw, Except.isOk, Except.toBool]
    | ok octets =>
      cases Peer.Identity.ofKey service r.peerKey with
      | error e => simp [throw, throwThe, MonadExceptOf.throw]
      | ok i => simp [pure, Except.pure, Except.isOk, Except.toBool]

theorem checkRemote_eq_ok_iff {nodeAddress : String} {r : Request} {x : Option Chain.Session}
    {s : Chain.Session} :
    checkRemote nodeAddress r x = .ok s ↔ x = some s ∧ s.isActive ∧
      s.accountAddress = r.accountAddress ∧ s.nodeAddress = nodeAddress := by
  cases x with
  | none => simp [checkRemote]
  | some t =>
    unfold checkRemote
    by_cases hactive : t.isActive
    · by_cases haccount : t.accountAddress = r.accountAddress
      · by_cases hnode : t.nodeAddress = nodeAddress
        · simp only [hactive, haccount, hnode, Bool.not_true, Bool.false_eq_true, if_false,
            ne_eq, not_true, Except.ok.injEq, Option.some.injEq]
          constructor
          · rintro rfl; exact ⟨rfl, hactive, haccount, hnode⟩
          · rintro ⟨rfl, -⟩; rfl
        · simp only [hactive, haccount, hnode, Bool.not_true, Bool.false_eq_true, if_false,
            ne_eq, not_true, not_false_iff, if_true, reduceCtorEq, false_iff]
          rintro ⟨⟨⟩, -, -, h⟩
          exact hnode h
      · simp only [hactive, haccount, Bool.not_true, Bool.false_eq_true, if_false, ne_eq,
          not_false_iff, if_true, reduceCtorEq, false_iff]
        rintro ⟨⟨⟩, -, h, -⟩
        exact haccount h
    · simp only [hactive, Bool.not_false, if_true, reduceCtorEq, false_iff]
      rintro ⟨⟨⟩, h, -⟩
      exact hactive h

theorem byteQuota_eq_ok_iff {s : Chain.Session} {n : Nat} :
    byteQuota s = .ok n ↔ Decimal.parse? s.maxBytes = some n := by
  unfold byteQuota
  cases Decimal.parse? s.maxBytes <;> simp

/-! ## An admission, check by check -/

/-- What an admission does once request and session have passed their checks. -/
def proceed (config : NodeConfig) (r : Request) (key : String) (remote : Chain.Session) :
    Program (Except Error (List UInt8)) := do
  match ← checkLedger r.sessionId key with
  | .error e => return .error e
  | .ok () =>
    match byteQuota remote with
    | .error e => return .error e
    | .ok quota => connect config.service r remote quota key

theorem accept_eq (config : NodeConfig) (r : Request) :
    accept config r =
      match checkRequest config.service r with
      | .error e => .done (.error e)
      | .ok key => Chain.querySession config.policies r.sessionId >>= fun
        | .error e => .done (.error (.chain e))
        | .ok remote =>
          match checkRemote config.nodeAddress r remote with
          | .error e => .done (.error e)
          | .ok remote => proceed config r key remote := rfl

/-! ## The row of an admitted client -/

/-- The row of an admitted client, field by field. -/
def grantedRow (config : NodeConfig) (r : Request) (remote : Chain.Session) (quota : Nat)
    (key : String) (now : Time) : Session where
  id := r.sessionId
  accountAddress := remote.accountAddress
  nodeAddress := remote.nodeAddress
  downloadBytes := "0"
  uploadBytes := "0"
  maxBytes := Decimal.render quota
  duration := 0
  maxDuration := max 0 remote.maxDuration
  signature := r.signature
  peerKey := key
  service := config.service
  createdAt := now
  updatedAt := now

theorem max_zero_eq (n : Int64) : max 0 n = if n < 0 then 0 else n := by
  show (if 0 ≤ n then n else 0) = _
  by_cases h : n < 0
  · rw [if_pos h, if_neg (Int64.not_le.2 h)]
  · rw [if_neg h, if_pos (Int64.not_lt.1 h)]

theorem nanosOfDuration_durationOf (nanos : Int64) :
    Session.nanosOfDuration (Session.durationOf nanos) = max 0 nanos := by
  have hmax : Int64.maxValue.toInt = 9223372036854775807 := rfl
  have hzero : (0 : Int64).toInt = 0 := rfl
  have hlt := nanos.toInt_lt
  apply Int64.toInt_inj.1
  rw [Session.toInt_nanosOfDuration, Session.durationOf, max_zero_eq]
  by_cases h : nanos < 0
  · rw [if_pos h]
    rw [Int64.lt_iff_toInt_lt] at h
    omega
  · rw [if_neg h]
    rw [Int64.lt_iff_toInt_lt] at h
    omega

theorem newSession_eq (config : NodeConfig) {r : Request} {remote : Chain.Session}
    (hid : remote.id = r.sessionId) (quota : Nat) (key : String) (now : Time) :
    newSession config.service r remote quota key now =
      grantedRow config r remote quota key now := by
  unfold newSession grantedRow
  simp only [Session.new, Session.withMaxBytes, Session.withMaxDuration,
    nanosOfDuration_durationOf, hid]

/-- The row of a client may be stored if the session has an id, the key is more than
    blanks, both addresses fit, and the signature is Base64. -/
theorem validate_grantedRow_iff {config : NodeConfig} {r : Request} {remote : Chain.Session}
    {quota : Nat} {key : String} {now : Time} :
    (grantedRow config r remote quota key now).validate = .ok () ↔ r.sessionId ≠ 0 ∧
      Text.isAllBlank key = false ∧ Session.FitAddress remote.accountAddress ∧
      Session.FitAddress remote.nodeAddress ∧ (Base64.decode r.signature).isOk := by
  have hzero : (Decimal.parse? "0").isSome := by decide
  have hduration : ¬ max 0 remote.maxDuration < 0 := by
    rw [max_zero_eq]
    split
    · exact Int64.lt_irrefl
    · assumption
  rw [Session.validate_eq_ok_iff]
  simp only [grantedRow, hzero, Decimal.parse?_render, Option.isSome_some, hduration,
    not_false_iff, true_and, show ¬ (0 : Int64) < 0 by decide]

end VpnNode.Admission
