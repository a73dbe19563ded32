import VpnNode.Http.Basic
import VpnNode.State

/-!
# Surveys over HTTP

Whether an endpoint is alive, where the node is, and how fast it is.
-/

namespace VpnNode.Survey

open Http (Call Failure Response)

/-! ## Endpoints -/

def readProbe (url : Url) : Except Failure Response → Except String Unit
  | .error f => .error f.message
  | .ok r =>
    if r.status = 200 then .ok ()
    else .error s!"probe {url.render} returned {Http.statusText r.status}"

/-- Asks whether an endpoint is alive. -/
def probe (endpoint : String) : Call (Except String Unit) :=
  let url := Url.under endpoint "/status"
  { request := { method := .get, url }, read := readProbe url }

/-! ## Location -/

/-- An answer about the location: whether it was found, why not, and the location. -/
structure Finding where
  status : String
  message : String
  location : Location

def Finding.record : Json.Record Finding :=
  (Json.Record.pure fun status message ip city country countryCode latitude longitude =>
      Finding.mk status message { ip, city, country, countryCode, latitude, longitude })
    |>.optional "status" Json.Reader.text ""
    |>.optional "message" Json.Reader.text ""
    |>.optional "query" Json.Reader.text ""
    |>.optional "city" Json.Reader.text ""
    |>.optional "country" Json.Reader.text ""
    |>.optional "countryCode" Json.Reader.text ""
    |>.optional "lat" Json.Reader.real .zero
    |>.optional "lon" Json.Reader.real .zero

def readLocation : Except Failure Response → Except String Location
  | .error f => .error f.message
  | .ok r =>
    if !r.isSuccess then .error s!"geoip lookup failed {r.summary}"
    else
      match r.json Finding.record.read with
      | .error f => .error f.message
      | .ok found =>
        if found.status.isEmpty || found.status == "success" then .ok found.location
        else .error s!"geoip lookup failed: {found.message}"

/-- Asks where the node is. -/
def locate (url : String) : Call (Except String Location) where
  request := { method := .get, url := .parse url }
  read := readLocation

/-! ## Speed -/

/-- The number of octets that are uploaded. -/
def uploadSize : Nat := 8 * 1024 * 1024

/-- Octets per second; nothing can be said of no time. -/
def rate (octets nanos : Nat) : UInt64 :=
  if nanos = 0 then 0 else UInt64.ofNat (min (octets * 1000000000 / nanos) (UInt64.size - 1))

/-- A response, unless its status is one of an error. -/
def accepted (url : Url) : Except Failure Response → Except Failure Response
  | .error f => .error f
  | .ok r => if r.isError then .error (.refused r.status url.render) else .ok r

/-- Downloads; gives the number of octets. -/
def download (url : Url) : Call (Except Failure Nat) where
  request := { method := .get, url }
  read := fun r => do
    let r ← accepted url r
    if r.complete then .ok r.body.length else .error .undecodable

/-- Uploads zeros. -/
def upload (url : Url) : Call (Except Failure Unit) where
  request := { method := .post, url, body := .zeros uploadSize }
  read := fun r => (accepted url r).map fun _ => ()

/-- Measures how fast the node is, over a network that says how many nanoseconds an
    exchange took. -/
def measure {m : Type → Type} [Monad m] (network : Http.Request → m (Option Response × Nat))
    (url : String) : m (Except String Speed) := do
  if url.isEmpty then return .error "speedtest url is not configured"
  else
    let url := Url.parse url
    let (answer, nanos) ← network (download url).request
    match (download url).answer answer with
    | .error f => return .error f.message
    | .ok octets =>
      let (answer, nanos') ← network (upload url).request
      match (upload url).answer answer with
      | .error f => return .error f.message
      | .ok () => return .ok ⟨rate octets nanos, rate uploadSize nanos'⟩

end VpnNode.Survey
