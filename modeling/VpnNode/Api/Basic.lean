import VpnNode.Admission
import VpnNode.Api.MediaType
import VpnNode.Codec.Form

/-!
# The node's web interface

`GET /` tells what the node is; `POST /accounts/ACCOUNT/sessions/ID` admits a client.
Pages of any origin may call it.
-/

namespace VpnNode.Api

/-- A request to the interface. -/
structure Call where
  method : String
  path : String
  contentType : Option String
  body : String

/-- An answer of the interface. `preflight` says whether it lists what other pages may
    send. -/
structure Reply where
  status : Nat
  body : Option Json
  preflight : Bool

def Reply.ofStatus (status : Nat) : Reply := ⟨status, none, false⟩

/-- The headers that say what pages of other origins may do. -/
def Reply.crossOriginHeaders (r : Reply) : List (String × String) :=
  ("access-control-allow-origin", "*") ::
    if r.preflight then
      [("access-control-allow-methods", "GET,POST"),
        ("access-control-allow-headers", "content-type")]
    else []

/-- A request with its headers, whose names may be written in any case. -/
def Call.ofHeaders (method path : String) (headers : List (String × String)) (body : String) :
    Call where
  method
  path
  contentType := (headers.find? fun h => Text.asciiLower h.1 == "content-type").map Prod.snd
  body

/-- The version of the interface. -/
def version : String := "0.1.0"

/-! ## Routes -/

/-- Where a path leads. -/
inductive Route where
  | info
  | session (account id : String)
  deriving DecidableEq, Repr

/-- The route of a path, whatever its query. Segments are matched as they are written;
    the last one must not be empty. -/
def Route.ofPath? (path : String) : Option Route :=
  let path := path.toList.takeWhile (· ≠ '?')
  match (Text.split '/' path).map String.ofList with
  | ["", ""] => some .info
  | ["", "accounts", account, "sessions", id] =>
    if id = "" then none else some (.session account id)
  | _ => none

/-- The id of a segment: digits, perhaps after a plus sign, in the range of 64 bits. -/
def parseId? (s : String) : Option UInt64 := do
  let digits := match s.toList with
    | '+' :: r => r
    | r => r
  let n ← Decimal.parse? (String.ofList digits)
  if n < UInt64.size then some (UInt64.ofNat n) else none

/-! ## What the node is -/

def coinJson (c : Coin) : Json := .object [("denom", .string c.denom), ("amount", .ofNat c.amount)]

/-- The description of the node. -/
def infoJson (config : NodeConfig) (state : State) (peers uptime : Nat) : Json :=
  .object [
    ("moniker", .string config.moniker),
    ("address", .string config.nodeAddress),
    ("service_type", .string config.service.name),
    ("gigabyte_prices", .array (config.gigabytePrices.map coinJson)),
    ("hourly_prices", .array (config.hourlyPrices.map coinJson)),
    ("location", .ofOption Location.toJson state.location),
    ("speedtest", .ofOption Speed.toJson state.speed),
    ("rpc_addr", .string state.rpc),
    ("peers", .ofNat peers),
    ("max_peers", .ofNat config.maxPeers.toNat),
    ("uptime_secs", .ofNat uptime),
    ("version", .string version)]

/-- Describes the node. A backend that cannot count its peers counts as having none. -/
def info (config : NodeConfig) (uptime : Nat) : Program Reply := do
  let count ← Program.request .peerCount
  let state ← Program.request .readState
  let peers := match count with
    | .ok n => n
    | .error _ => 0
  return ⟨200, some (infoJson config state peers uptime), false⟩

/-! ## Admission of clients -/

/-- The status of a refusal. -/
def statusOf : Admission.Error → Nat
  | .zeroSession | .signature _ | .peer (.invalidKey _ _ _) => 400
  | .sessionNotFound _ => 404
  | .sessionInactive _ _ | .accountMismatch _ _ _ | .nodeMismatch _ _ => 403
  | .sessionExists _ | .peerKeyInUse | .peer (.alreadyExists _) => 409
  | .peer (.capacity _) => 503
  | .chain _ => 502
  | .peer _ | .ledger _ => 500

/-- What a client sends: its peer key and its signature. -/
def bodyRecord : Json.Record (String × String) :=
  (Json.Record.pure fun key signature => (key, signature))
    |>.required "key" Json.Reader.text
    |>.required "signature" Json.Reader.text

/-- Reads a body; what follows the value is passed over. -/
def readBody (body : String) : Except Json.Flaw (String × String) :=
  bodyRecord.read (Json.Source.read body).1

/-- Checks a request for admission; gives the status of a refusal. The path counts before
    the media type, and that before the body. -/
def admissionRequest (account id : String) (call : Call) : Except Nat Admission.Request :=
  match Form.decodeSegment? account, (Form.decodeSegment? id).bind parseId? with
  | some account, some id =>
    if !(call.contentType.bind MediaType.parse?).any MediaType.isJson then .error 415
    else match readBody call.body with
      | .error .malformed => .error 400
      | .error .mismatch => .error 422
      | .ok (key, signature) => .ok ⟨account, id, key, signature⟩
  | _, _ => .error 400

/-- The answer to a client. -/
def admissionReply : Except Admission.Error (List UInt8) → Reply
  | .ok data => ⟨201, some (.object [("data", .string (Base64.encode data))]), false⟩
  | .error e => ⟨statusOf e, some (.object [("error", .string e.message)]), false⟩

/-- Admits a client. -/
def addSession (config : NodeConfig) (account id : String) (call : Call) : Program Reply :=
  match admissionRequest account id call with
  | .error status => return .ofStatus status
  | .ok r => do return admissionReply (← Admission.accept config r)

/-! ## All requests -/

/-- Answers a request. `HEAD` is `GET` without the body. -/
def handle (config : NodeConfig) (uptime : Nat) (call : Call) : Program Reply :=
  if call.method = "OPTIONS" then return ⟨200, none, true⟩
  else match Route.ofPath? call.path with
    | none => return .ofStatus 404
    | some .info =>
      if call.method = "GET" then info config uptime
      else if call.method = "HEAD" then do return { ← info config uptime with body := none }
      else return .ofStatus 405
    | some (.session account id) =>
      if call.method = "POST" then addSession config account id call
      else return .ofStatus 405

end VpnNode.Api
