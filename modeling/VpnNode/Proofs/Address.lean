import VpnNode.Address
import VpnNode.Proofs.Codec.Bech32

/-!
# Addresses and their payloads

An address says what it was made of. So the address of a node is that of its account under
another readable part, and tells one account from another as far as their payloads do.

Main statements:

* `encode_eq_ok_iff`: when an address is written, and which.
* `decode_encode`: a readable part, in lower case, and a payload are read back.
* `encode_inj`: payloads are told apart by their addresses.
* `ofAccount_isOk_iff`, `fault_of_ofAccount`: when the node of an account has an address, and
  why not otherwise.
* `addresses_faithful`: addresses of payloads and of nodes as a whole.
-/

namespace VpnNode.Address

variable {part account address found : String} {payload : List UInt8}

/-- An address is a payload that is not empty, with its readable part. -/
theorem decode_eq_ok_iff : decode address = .ok (part, payload) ↔
    Bech32.decode address = .ok (part, payload) ∧ payload ≠ [] := by
  unfold decode
  cases Bech32.decode address with
  | error e => simp
  | ok v =>
    obtain ⟨found, bytes⟩ := v
    dsimp only
    split
    · simp_all
    · simp only [Except.ok.injEq, Prod.mk.injEq]
      constructor
      · rintro ⟨rfl, rfl⟩
        exact ⟨⟨rfl, rfl⟩, by simp_all⟩
      · exact And.left

theorem encode_eq_ok_iff : encode part payload = .ok address ↔
    Bech32.IsReadable part ∧ address = Bech32.textOf (Text.asciiLower part) payload := by
  rw [encode, mapError_eq_ok_iff, Bech32.encode_eq_ok_iff]

/-- A readable part, in lower case, and a payload are read back from their address. -/
theorem decode_encode (hne : payload ≠ []) (h : encode part payload = .ok address) :
    decode address = .ok (Text.asciiLower part, payload) := by
  obtain ⟨hpart, rfl⟩ := encode_eq_ok_iff.1 h
  unfold decode
  rw [Bech32.decode_textOf hpart]
  dsimp only
  rw [if_neg (by simpa using hne)]

theorem encode_of_readable (hpart : Bech32.IsReadable part) (payload : List UInt8) :
    encode part payload = .ok (Bech32.textOf (Text.asciiLower part) payload) :=
  encode_eq_ok_iff.2 ⟨hpart, rfl⟩

/-- Payloads are told apart by their addresses. -/
theorem encode_inj {payload' : List UInt8} (hpart : Bech32.IsReadable part) (hne : payload ≠ [])
    (hne' : payload' ≠ []) :
    encode part payload = encode part payload' ↔ payload = payload' := by
  refine ⟨fun h => ?_, fun h => by rw [h]⟩
  have hread := decode_encode hne (encode_of_readable hpart payload)
  have hread' := decode_encode hne' (h.symm.trans (encode_of_readable hpart payload))
  rw [hread, Except.ok.injEq, Prod.mk.injEq] at hread'
  exact hread'.2

/-- The address of a node is that of its account under another readable part. -/
theorem ofAccount_of_decode (h : decode account = .ok (found, payload)) :
    ofAccount account part = encode part payload := by
  rw [ofAccount, h]
  rfl

/-- The node of an account has an address if the account is an address and the readable
    part can be written. -/
theorem ofAccount_isOk_iff :
    (ofAccount account part).isOk ↔
      (∃ found payload, Bech32.decode account = .ok (found, payload) ∧ payload ≠ []) ∧
        Bech32.IsReadable part := by
  simp only [isOk_iff, ofAccount_eq_ok_iff, decode_eq_ok_iff, encode_eq_ok_iff]
  constructor
  · rintro ⟨_, found, payload, hdecode, hpart, -⟩
    exact ⟨⟨found, payload, hdecode⟩, hpart⟩
  · rintro ⟨⟨found, payload, hdecode⟩, hpart⟩
    exact ⟨_, found, payload, hdecode, hpart, rfl⟩

/-- The node of an account has no address because the account is none or because of the
    readable part. -/
theorem fault_of_ofAccount {e : Error} (h : ofAccount account part = .error e) :
    (∃ reason, e = .decode account reason ∧
      ¬ ∃ found payload, Bech32.decode account = .ok (found, payload) ∧ payload ≠ []) ∨
    ∃ reason, e = .encode reason ∧ ¬ Bech32.IsReadable part := by
  rw [ofAccount, bind_eq_error_iff] at h
  obtain hdecode | ⟨⟨found, payload⟩, -, hencode⟩ := h
  · left
    obtain ⟨reason, he⟩ : ∃ reason, e = .decode account reason := by
      unfold decode at hdecode
      split at hdecode
      · cases hdecode
        exact ⟨_, rfl⟩
      · split at hdecode <;> cases hdecode
        exact ⟨_, rfl⟩
    refine ⟨reason, he, ?_⟩
    rintro ⟨found, payload, hread⟩
    rw [decode_eq_ok_iff.2 hread] at hdecode
    cases hdecode
  · right
    change encode part payload = .error e at hencode
    obtain ⟨f, -, he⟩ := mapError_eq_error_iff.1 hencode
    refine ⟨f.message, he, fun hpart => ?_⟩
    rw [encode_of_readable hpart] at hencode
    cases hencode

/-- An address can be written exactly under 1 to 83 visible characters of ASCII without
    letters of both cases, whatever the payload; a payload that is not empty is read back
    from it, with the readable part in lower case. The node of an account has an address
    under every such part, which has the payload of the account; and two accounts have
    nodes of one address exactly if they have one payload. -/
theorem addresses_faithful (part : String) :
    (∀ payload, (∃ address, encode part payload = .ok address) ↔ Bech32.IsReadable part) ∧
    (∀ payload address, payload ≠ [] → encode part payload = .ok address →
      decode address = .ok (Text.asciiLower part, payload)) ∧
    (∀ account found payload, decode account = .ok (found, payload) → Bech32.IsReadable part →
      ∃ address, ofAccount account part = .ok address ∧
        decode address = .ok (Text.asciiLower part, payload)) ∧
    ∀ account found payload account' found' payload',
      decode account = .ok (found, payload) → decode account' = .ok (found', payload') →
      Bech32.IsReadable part →
      (ofAccount account part = ofAccount account' part ↔ payload = payload') := by
  refine ⟨fun payload => ?_, fun _ _ => decode_encode, ?_, ?_⟩
  · constructor
    · rintro ⟨address, h⟩
      exact (encode_eq_ok_iff.1 h).1
    · exact fun hpart => ⟨_, encode_of_readable hpart payload⟩
  · intro account found payload hdecode hpart
    have hencode := encode_of_readable hpart payload
    exact ⟨_, (ofAccount_of_decode hdecode).trans hencode,
      decode_encode (decode_ne_nil hdecode) hencode⟩
  · intro account found payload account' found' payload' hdecode hdecode' hpart
    rw [ofAccount_of_decode hdecode, ofAccount_of_decode hdecode']
    exact encode_inj hpart (decode_ne_nil hdecode) (decode_ne_nil hdecode')

end VpnNode.Address
