import VpnNode.Codec.Bech32

/-!
# Addresses

An address is a non-empty payload under a readable part. The address of a node has
the payload of the account that operates it under a readable part of its own.

Main statements:

* `decode_ne_nil`: a decoded payload is never empty.
* `ofAccount_eq_ok_iff`: when the node of an account has an address.
-/

namespace VpnNode.Address

/-- Why an address is refused. -/
inductive Error where
  /-- The text is no address. -/
  | decode (address reason : String)
  /-- The address stands under another readable part than expected. -/
  | unexpectedPart (address found expected : String)
  /-- No address can be written under this readable part. -/
  | encode (reason : String)
  deriving DecidableEq, Repr

def Error.message : Error → String
  | .decode address reason => s!"invalid bech32 address '{address}': {reason}"
  | .unexpectedPart address found expected =>
    s!"address '{address}' has prefix '{found}', expected '{expected}'"
  | .encode reason => s!"failed to encode address: {reason}"

/-- The name of the kind of error. -/
def Error.kind : Error → String
  | .decode _ _ => "Decode"
  | .unexpectedPart _ _ _ => "Prefix"
  | .encode _ => "Encode"

/-- The readable part, in lower case, and the payload of an address. -/
def decode (address : String) : Except Error (String × List UInt8) :=
  match Bech32.decode address with
  | .error f => .error (.decode address f.message)
  | .ok (part, payload) =>
    if payload.isEmpty then .error (.decode address "empty payload") else .ok (part, payload)

/-- The address of a payload under a readable part. -/
def encode (part : String) (payload : List UInt8) : Except Error String :=
  (Bech32.encode part payload).mapError fun f => .encode f.message

/-- Checks an address, and its readable part where one is expected. -/
def validate (address : String) (expected : Option String) : Except Error Unit := do
  let (found, _) ← decode address
  match expected with
  | some expected => if found = expected then .ok () else .error (.unexpectedPart address found expected)
  | none => .ok ()

/-- The address of the node that an account operates. -/
def ofAccount (account part : String) : Except Error String := do
  let (_, payload) ← decode account
  encode part payload

/-- A decoded payload is never empty. -/
theorem decode_ne_nil {address part : String} {payload : List UInt8}
    (h : decode address = .ok (part, payload)) : payload ≠ [] := by
  unfold decode at h
  split at h
  · simp at h
  · split at h
    · simp at h
    · rename_i hp
      simp only [Except.ok.injEq, Prod.mk.injEq] at h
      obtain ⟨-, rfl⟩ := h
      simpa using hp

/-- The address of a node exists exactly if the account is an address and the
    readable part can be written. -/
theorem ofAccount_eq_ok_iff {account part address : String} :
    ofAccount account part = .ok address ↔
      ∃ found payload, decode account = .ok (found, payload) ∧
        encode part payload = .ok address := by
  unfold ofAccount
  cases decode account with
  | error e => simp [bind, Except.bind]
  | ok v => obtain ⟨f, p⟩ := v; simp [bind, Except.bind, and_assoc]

end VpnNode.Address
