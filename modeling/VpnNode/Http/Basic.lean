import VpnNode.Http.Url
import VpnNode.Json.Record

/-!
# Calls over HTTP

A call is a request together with what its answer means. It is data: whoever has a network
sends the request and hands the answer to the call.

Main statement:

* `Call.answer_none`: a request that could not be sent has a failure that names its URL.
-/

namespace VpnNode.Http

inductive Method where
  | get
  | post
  | delete
  deriving DecidableEq, Repr

def Method.name : Method → String
  | .get => "GET"
  | .post => "POST"
  | .delete => "DELETE"

/-- What a request carries. -/
inductive Body where
  | empty
  | json (v : Json)
  /-- That many zero octets. -/
  | zeros (n : Nat)

structure Request where
  method : Method
  url : Url
  body : Body := .empty

/-- What came back: a status, and a body that may have been cut short. -/
structure Response where
  status : Nat
  body : List UInt8
  complete : Bool := true
  deriving DecidableEq, Repr

/-! ## Statuses -/

/-- The phrase of a status. -/
def phrase? : Nat → Option String
  | 100 => some "Continue"
  | 101 => some "Switching Protocols"
  | 102 => some "Processing"
  | 200 => some "OK"
  | 201 => some "Created"
  | 202 => some "Accepted"
  | 203 => some "Non Authoritative Information"
  | 204 => some "No Content"
  | 205 => some "Reset Content"
  | 206 => some "Partial Content"
  | 207 => some "Multi-Status"
  | 208 => some "Already Reported"
  | 226 => some "IM Used"
  | 300 => some "Multiple Choices"
  | 301 => some "Moved Permanently"
  | 302 => some "Found"
  | 303 => some "See Other"
  | 304 => some "Not Modified"
  | 305 => some "Use Proxy"
  | 307 => some "Temporary Redirect"
  | 308 => some "Permanent Redirect"
  | 400 => some "Bad Request"
  | 401 => some "Unauthorized"
  | 402 => some "Payment Required"
  | 403 => some "Forbidden"
  | 404 => some "Not Found"
  | 405 => some "Method Not Allowed"
  | 406 => some "Not Acceptable"
  | 407 => some "Proxy Authentication Required"
  | 408 => some "Request Timeout"
  | 409 => some "Conflict"
  | 410 => some "Gone"
  | 411 => some "Length Required"
  | 412 => some "Precondition Failed"
  | 413 => some "Payload Too Large"
  | 414 => some "URI Too Long"
  | 415 => some "Unsupported Media Type"
  | 416 => some "Range Not Satisfiable"
  | 417 => some "Expectation Failed"
  | 418 => some "I'm a teapot"
  | 421 => some "Misdirected Request"
  | 422 => some "Unprocessable Entity"
  | 423 => some "Locked"
  | 424 => some "Failed Dependency"
  | 425 => some "Too Early"
  | 426 => some "Upgrade Required"
  | 428 => some "Precondition Required"
  | 429 => some "Too Many Requests"
  | 431 => some "Request Header Fields Too Large"
  | 451 => some "Unavailable For Legal Reasons"
  | 500 => some "Internal Server Error"
  | 501 => some "Not Implemented"
  | 502 => some "Bad Gateway"
  | 503 => some "Service Unavailable"
  | 504 => some "Gateway Timeout"
  | 505 => some "HTTP Version Not Supported"
  | 506 => some "Variant Also Negotiates"
  | 507 => some "Insufficient Storage"
  | 508 => some "Loop Detected"
  | 510 => some "Not Extended"
  | 511 => some "Network Authentication Required"
  | _ => none

/-- A status with its phrase. -/
def statusText (status : Nat) : String :=
  Decimal.render status ++ " " ++ (phrase? status).getD "<unknown status code>"

/-! ## Failures -/

/-- Why a call has no usable answer. -/
inductive Failure where
  /-- The request could not be sent, or no answer came. -/
  | unsent (url : String)
  /-- The body breaks off, or is not what was expected. -/
  | undecodable
  /-- The status is one of an error. -/
  | refused (status : Nat) (url : String)
  deriving DecidableEq, Repr

def Failure.message : Failure → String
  | .unsent url => s!"error sending request for url ({url})"
  | .undecodable => "error decoding response body"
  | .refused status url =>
    let side := if status < 500 then "client" else "server"
    s!"HTTP status {side} error ({statusText status}) for url ({url})"

namespace Response

def isSuccess (r : Response) : Bool := 200 ≤ r.status && r.status < 300

/-- Is the status one of an error? -/
def isError (r : Response) : Bool := 400 ≤ r.status && r.status < 600

/-- The body as text. -/
def text (r : Response) : Except Failure String :=
  if r.complete then .ok (Utf8.decodeLossy r.body) else .error .undecodable

/-- The body as text, or nothing if it breaks off. -/
def textOrEmpty (r : Response) : String := r.text.toOption.getD ""

/-- The body as a JSON value of some shape. -/
def json (r : Response) (reader : Json.Reader α) : Except Failure α :=
  match if r.complete then (Utf8.decode? r.body).bind reader.ofText? else none with
  | some a => .ok a
  | none => .error .undecodable

/-- A status with its phrase, and the body. -/
def summary (r : Response) : String := s!"{statusText r.status} {r.textOrEmpty}"

end Response

/-! ## Calls -/

/-- A request, and what its answer means. -/
structure Call (α : Type) where
  request : Request
  read : Except Failure Response → α

namespace Call

/-- What an answer means, or that there is none. -/
def answer (c : Call α) : Option Response → α
  | some r => c.read (.ok r)
  | none => c.read (.error (.unsent c.request.url.render))

/-- Makes a call over a network, which gives the answer to a request, if there is one. -/
def perform {m : Type → Type} [Monad m] (network : Request → m (Option Response)) (c : Call α) :
    m α :=
  return c.answer (← network c.request)

/-- A request that could not be sent has a failure that names its URL. -/
theorem answer_none (c : Call α) : c.answer none = c.read (.error (.unsent c.request.url.render)) :=
  rfl

end Call

end VpnNode.Http
