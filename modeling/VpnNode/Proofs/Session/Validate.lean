import VpnNode.Proofs.Result
import VpnNode.Session.Validate

/-!
# When a session is fit to be stored

Main statement:

* `validate_eq_ok_iff`: the rules that a session must keep, together.
-/

namespace VpnNode.Session

/-- An address that may stand in a row. -/
def FitAddress (address : String) : Prop :=
  address ≠ "" ∧ Address.validate address none = .ok ()

theorem fitAddress_of_isOk {address : String} (hne : address ≠ "")
    (hok : (Address.validate address none).isOk = true) : FitAddress address := by
  obtain ⟨⟨⟩, hvalid⟩ := isOk_iff.1 hok
  exact ⟨hne, hvalid⟩

theorem checkNumber_eq_ok_iff {field value : String} :
    checkNumber field value = .ok () ↔ (Decimal.parse? value).isSome := by
  unfold checkNumber
  split <;> simp_all

theorem checkDuration_eq_ok_iff {field : String} {nanos : Int64} :
    checkDuration field nanos = .ok () ↔ ¬ nanos < 0 := by
  unfold checkDuration
  split <;> simp_all

/-- A session is fit to be stored if it keeps every rule. -/
theorem validate_eq_ok_iff {s : Session} :
    s.validate = .ok () ↔ s.id ≠ 0 ∧ Text.isAllBlank s.peerKey = false ∧
      FitAddress s.accountAddress ∧ FitAddress s.nodeAddress ∧
      (Decimal.parse? s.downloadBytes).isSome ∧ (Decimal.parse? s.uploadBytes).isSome ∧
      (Decimal.parse? s.maxBytes).isSome ∧ ¬ s.duration < 0 ∧ ¬ s.maxDuration < 0 ∧
      (Base64.decode s.signature).isOk := by
  have hunit : ∀ {x : Except Error Unit} {f : Unit → Except Error Unit},
      (x >>= f) = .ok () ↔ x = .ok () ∧ f () = .ok () := by
    intro x f
    rw [bind_eq_ok_iff]
    exact ⟨fun ⟨_, hx, hf⟩ => ⟨hx, hf⟩, fun ⟨hx, hf⟩ => ⟨(), hx, hf⟩⟩
  -- Each of the first four rules ends the check where it is broken.
  have hthrow : ∀ {e : Error} {f : PUnit → Except Error Unit}, (throw e >>= f) ≠ .ok () := by
    intro e f h
    cases h
  by_cases hid : s.id = 0
  · simp only [validate, hid, if_true, hthrow, ne_eq, not_true, false_and]
  by_cases hkey : Text.isAllBlank s.peerKey
  · simp only [validate, hid, hkey, if_true, if_false, hthrow, Bool.true_eq_false, false_and,
      and_false]
  by_cases ha : s.accountAddress = ""
  · simp only [validate, FitAddress, hid, hkey, ha, if_true, if_false, hthrow, ne_eq, not_true,
      Bool.false_eq_true, false_and, and_false]
  by_cases hn : s.nodeAddress = ""
  · simp only [validate, FitAddress, hid, hkey, ha, hn, if_true, if_false, hthrow, ne_eq, not_true,
      Bool.false_eq_true, false_and, and_false]
  unfold validate
  simp only [hid, hkey, ha, hn, Bool.false_eq_true, if_false]
  rw [hunit, hunit, hunit, hunit, hunit, hunit, hunit, mapError_eq_ok_iff, mapError_eq_ok_iff,
    checkNumber_eq_ok_iff, checkNumber_eq_ok_iff, checkNumber_eq_ok_iff,
    checkDuration_eq_ok_iff, checkDuration_eq_ok_iff]
  simp only [FitAddress, ne_eq, hid, ha, hn, not_false_iff, true_and]
  cases Base64.decode s.signature with
  | ok octets => simp only [pure, Except.pure, Except.isOk, Except.toBool]
  | error fault =>
    simp only [throw, throwThe, MonadExceptOf.throw, reduceCtorEq, Except.isOk, Except.toBool,
      Bool.false_eq_true]

end VpnNode.Session
