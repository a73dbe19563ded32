import VpnNode.Chain.Basic
import VpnNode.Chain.Error
import VpnNode.Http.Basic
import VpnNode.NodeConfig

/-!
# The gateway to the chain

Sessions, submissions and transactions over HTTP. The gateway signs what is submitted.
-/

namespace VpnNode.Gateway

open Http (Call Failure Response)

def transport (f : Failure) : Chain.Error := .transport f.message

def invalid (f : Failure) : Chain.Error := .invalidResponse f.message

/-- A status that is not expected. -/
def unexpected (what : String) (r : Response) : Chain.Error :=
  .transport s!"{what} failed {r.summary}"

/-! ## Sessions -/

def readSession : Except Failure Response → Except Chain.Error (Option Chain.Session)
  | .error f => .error (transport f)
  | .ok r =>
    if r.isSuccess then ((r.json Chain.Session.record.read).map some).mapError invalid
    else if r.status = 404 then .ok none
    else .error (unexpected "query_session" r)

/-- Asks for a session. -/
def querySession (base : String) (id : UInt64) : Call (Except Chain.Error (Option Chain.Session)) where
  request := { method := .get, url := .under base s!"/sessions/{Decimal.render id.toNat}" }
  read := readSession

/-! ## Submissions -/

/-- What the gateway is given to sign. -/
def submissionJson (tx : Chain.TxOptions) (batch : List Chain.Message) : Json :=
  .object [("chain_id", .string tx.chainId), ("from_name", .string tx.fromName),
    ("fee_granter", .ofOption .string tx.feeGranter), ("gas", .ofNat tx.gas.toNat),
    ("gas_adjustment", .number (.real tx.gasAdjustment)), ("gas_prices", .string tx.gasPrices),
    ("simulate", .bool tx.simulate), ("messages", .array (batch.map Chain.Message.toJson))]

/-- The answer to a submission, where every member may be missing. -/
def receiptRecord : Json.Record Chain.Receipt :=
  (Json.Record.pure Chain.Receipt.mk)
    |>.optional "tx_hash" Json.Reader.text ""
    |>.optional "code" Json.Reader.uint32 0
    |>.optional "raw_log" Json.Reader.text ""

/-- What a body says of a submission that was not taken. -/
def refusal (body : String) : Option Chain.Receipt → Chain.Error
  | some r => .ofBroadcastMessage r.log (if r.hash.isEmpty then none else some r.hash)
  | none => .ofBroadcastMessage body none

/-- What a status and a body say of a submission. A submission that is refused because it
    is in the pool already may come with a success status. -/
def readSubmission (success : Bool) (body : String) : Except Chain.Error Chain.Receipt :=
  let receipt := receiptRecord.read.ofText? body
  if !success then .error (refusal body receipt)
  else
    match receipt with
    | none => .error (.invalidResponse s!"broadcast response: {body}")
    | some r =>
      if !r.isOk && !r.hash.isEmpty && Chain.saysDuplicate r.log then .error (.alreadyPooled r.hash)
      else .ok r

/-- Hands in a transaction. -/
def submit (base : String) (tx : Chain.TxOptions) (batch : List Chain.Message) :
    Call (Except Chain.Error Chain.Receipt) where
  request := { method := .post, url := .under base "/txs", body := .json (submissionJson tx batch) }
  read
    | .error f => .error (transport f)
    | .ok r =>
      match r.text with
      | .error f => .error (transport f)
      | .ok body => readSubmission r.isSuccess body

/-! ## Transactions -/

def readTransaction (hash : String) : Except Failure Response → Except Chain.Error Chain.Inclusion
  | .error f => .error (transport f)
  | .ok r =>
    if r.isSuccess then (r.json Chain.Inclusion.record.read).mapError invalid
    else if r.status = 404 then .error (.notFound hash)
    else .error (unexpected "query_tx" r)

/-- Looks for a transaction in the chain's blocks. -/
def queryTransaction (base hash : String) : Call (Except Chain.Error Chain.Inclusion) where
  request := { method := .get, url := .under base s!"/txs/{hash}" }
  read := readTransaction hash

end VpnNode.Gateway
