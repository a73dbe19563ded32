import VpnNode.Chain.Basic
import VpnNode.Codec.Base64
import VpnNode.Peer.Service
import VpnNode.Time.Basic

/-!
# Sessions

A session is what the node keeps about a client that it serves: who it is, what it
may use, and what it has used. Byte counters are kept as numerals of any length, the
duration in nanoseconds, the client's signature in base64.

A row that was read from a damaged ledger may hold a counter that is no numeral, or
a signature that is no base64. To need such a value is not an error that a caller can
treat, but a corruption that ends the task.

Main statement:

* `toInt_nanosOfDuration`: a duration is kept as it is, up to what 63 bits hold.
-/

namespace VpnNode

/-- A session of a client. -/
structure Session where
  id : UInt64
  accountAddress : String
  nodeAddress : String
  downloadBytes : String
  uploadBytes : String
  maxBytes : String
  duration : Int64
  maxDuration : Int64
  signature : String
  peerKey : String
  service : Service
  createdAt : Time
  updatedAt : Time
  deriving DecidableEq

namespace Session

/-- A persisted value that cannot be used. -/
inductive Corruption where
  | counter (id : UInt64) (field value : String)
  | signature (id : UInt64) (fault : Base64.Fault)
  deriving DecidableEq

def Corruption.message : Corruption → String
  | .counter id field value =>
    s!"session {Decimal.render id.toNat}: persisted {field} '{value}' is not a decimal integer"
  | .signature id fault =>
    s!"session {Decimal.render id.toNat}: persisted signature is not base64: {fault.message}"

/-! ## Making a session -/

/-- The nanoseconds of a duration, as far as 63 bits hold them. -/
def nanosOfDuration (nanos : Nat) : Int64 := Int64.ofInt (min nanos Int64.maxValue.toInt)

theorem toInt_nanosOfDuration (nanos : Nat) :
    (nanosOfDuration nanos).toInt = min (nanos : Int) Int64.maxValue.toInt := by
  unfold nanosOfDuration
  have h : Int64.maxValue.toInt = 9223372036854775807 := rfl
  have h' : 0 ≤ min (nanos : Int) Int64.maxValue.toInt := by omega
  rw [Int64.toInt_ofInt_of_le] <;> omega

/-- A session without usage and without quotas. -/
def new (id : UInt64) (accountAddress nodeAddress peerKey : String) (service : Service)
    (now : Time) : Session where
  id
  accountAddress
  nodeAddress
  downloadBytes := "0"
  uploadBytes := "0"
  maxBytes := "0"
  duration := 0
  maxDuration := 0
  signature := ""
  peerKey
  service
  createdAt := now
  updatedAt := now

def withMaxBytes (s : Session) (n : Nat) : Session := { s with maxBytes := Decimal.render n }

def withMaxDuration (s : Session) (nanos : Nat) : Session :=
  { s with maxDuration := nanosOfDuration nanos }

def withSignature (s : Session) (octets : List UInt8) : Session :=
  { s with signature := Base64.encode octets }

/-! ## Reading a session -/

/-- The value of a counter. -/
def counter (s : Session) (field value : String) : Except Corruption Nat :=
  match Decimal.parse? value with
  | some n => .ok n
  | none => .error (.counter s.id field value)

def downloaded (s : Session) : Except Corruption Nat := s.counter "download_bytes" s.downloadBytes

def uploaded (s : Session) : Except Corruption Nat := s.counter "upload_bytes" s.uploadBytes

def byteQuota (s : Session) : Except Corruption Nat := s.counter "max_bytes" s.maxBytes

/-- The bytes in both directions. -/
def bytes (s : Session) : Except Corruption Nat := do
  let down ← s.downloaded
  let up ← s.uploaded
  return down + up

/-- The octets of the client's signature. -/
def signatureOctets (s : Session) : Except Corruption (List UInt8) :=
  match Base64.decode s.signature with
  | .ok octets => .ok octets
  | .error fault => .error (.signature s.id fault)

/-- A stored duration; a negative one counts as none. -/
def durationOf (nanos : Int64) : Nat := nanos.toInt.toNat

/-- Has the session used up one of its quotas? -/
def isOverQuota (s : Session) : Except Corruption Bool := do
  let used ← s.bytes
  let quota ← s.byteQuota
  return quota ≤ used || s.maxDuration ≤ s.duration

/-- The nanoseconds from the creation of the session to a point in time; none if the
    point comes first. -/
def elapsed (s : Session) (now : Time) : Nat := (now.since s.createdAt).toNat

/-! ## Usage -/

/-- A write that met a corrupt value: the value, and the session as written so far. -/
structure Interruption where
  corruption : Corruption
  written : Session

/-- Raises a counter to a reported value; a counter never goes down. -/
def raise (stored : Nat) (text : String) (reported : Nat) : String :=
  if stored < reported then Decimal.render reported else text

/-- Writes a report of downloaded bytes. -/
def applyDownload (s : Session) : Option Nat → Except Interruption Session
  | none => .ok s
  | some n =>
    match s.downloaded with
    | .error c => .error ⟨c, s⟩
    | .ok stored => .ok { s with downloadBytes := raise stored s.downloadBytes n }

/-- Writes a report of uploaded bytes. -/
def applyUpload (s : Session) : Option Nat → Except Interruption Session
  | none => .ok s
  | some n =>
    match s.uploaded with
    | .error c => .error ⟨c, s⟩
    | .ok stored => .ok { s with uploadBytes := raise stored s.uploadBytes n }

/-- Writes the usage that was reported at a point in time, and with it the duration up
    to that point. Without a counter nothing is written. -/
def applyUsage (s : Session) (download upload : Option Nat) (now : Time) :
    Except Interruption Session :=
  if download.isNone ∧ upload.isNone then .ok s
  else do
    let s ← s.applyDownload download
    let s ← s.applyUpload upload
    return { s with duration := nanosOfDuration (s.elapsed now), updatedAt := now }

/-- The report of the session's usage to the chain. -/
def usageReport (s : Session) : Except Corruption Chain.Message := do
  let down ← s.downloaded
  let up ← s.uploaded
  return .updateSession {
    nodeAddress := s.nodeAddress
    sessionId := s.id
    downloadBytes := Decimal.render down
    uploadBytes := Decimal.render up
    duration := s.duration
    signature := s.signature }

end VpnNode.Session
