import VpnNode.Address
import VpnNode.Session.Basic

/-!
# Sessions fit to be stored

A session is checked before it is stored. The first rule that it breaks is reported.
-/

namespace VpnNode.Session

/-- A rule that a session breaks. -/
inductive Error where
  | zeroId
  | empty (field : String)
  | address (error : Address.Error)
  | number (field value : String)
  | negativeDuration (field : String)
  | signature (fault : Base64.Fault)
  deriving DecidableEq

def Error.message : Error → String
  | .zeroId => "session id must be non-zero"
  | .empty field => s!"{field} must be non-empty"
  | .address error => error.message
  | .number field value => s!"{field} '{value}' is not a non-negative integer"
  | .negativeDuration field => s!"{field} must be non-negative"
  | .signature fault => s!"signature is not valid base64: {fault.message}"

/-- The name of the kind of error. -/
def Error.kind : Error → String
  | .zeroId => "ZeroId"
  | .empty _ => "Empty"
  | .address error => "Address." ++ error.kind
  | .number _ _ => "Number"
  | .negativeDuration _ => "NegativeDuration"
  | .signature _ => "Signature"

/-- A counter must be a numeral. -/
def checkNumber (field value : String) : Except Error Unit :=
  if (Decimal.parse? value).isSome then .ok () else .error (.number field value)

/-- A duration must not be negative. -/
def checkDuration (field : String) (nanos : Int64) : Except Error Unit :=
  if nanos < 0 then .error (.negativeDuration field) else .ok ()

/-- Checks a session before it is stored. -/
def validate (s : Session) : Except Error Unit := do
  if s.id = 0 then throw .zeroId
  if Text.isAllBlank s.peerKey then throw (.empty "peer_key")
  if s.accountAddress = "" then throw (.empty "account_address")
  if s.nodeAddress = "" then throw (.empty "node_address")
  (Address.validate s.accountAddress none).mapError .address
  (Address.validate s.nodeAddress none).mapError .address
  checkNumber "download_bytes" s.downloadBytes
  checkNumber "upload_bytes" s.uploadBytes
  checkNumber "max_bytes" s.maxBytes
  checkDuration "duration" s.duration
  checkDuration "max_duration" s.maxDuration
  match Base64.decode s.signature with
  | .ok _ => return ()
  | .error fault => throw (.signature fault)

end VpnNode.Session
