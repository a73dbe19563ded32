import VpnNode.Json.Record

/-!
# What the chain holds and what it is sent

Sessions as the chain records them, the messages that the node sends, and the answers
to a transaction: one when it is handed in, another when it is part of a block.
-/

namespace VpnNode.Chain

open Json

/-- The status of a session or of a node. -/
inductive Status where
  | unspecified
  | active
  | inactivePending
  | inactive
  deriving DecidableEq, Repr

namespace Status

def name : Status → String
  | .unspecified => "unspecified"
  | .active => "active"
  | .inactivePending => "inactive_pending"
  | .inactive => "inactive"

def ofName? (s : String) : Option Status :=
  if s = "unspecified" then some .unspecified
  else if s = "active" then some .active
  else if s = "inactive_pending" then some .inactivePending
  else if s = "inactive" then some .inactive
  else none

def reader : Reader Status := Reader.caseName ofName?

end Status

/-- A session as the chain records it. Byte counts are numerals, durations
    nanoseconds. -/
structure Session where
  id : UInt64
  accountAddress : String
  nodeAddress : String
  downloadBytes : String
  uploadBytes : String
  maxBytes : String
  duration : Int64
  maxDuration : Int64
  status : Status
  deriving DecidableEq

namespace Session

def isActive (s : Session) : Bool := s.status == .active

def toJson (s : Session) : Json :=
  .object [
    ("id", .ofNat s.id.toNat),
    ("account_address", .string s.accountAddress),
    ("node_address", .string s.nodeAddress),
    ("download_bytes", .string s.downloadBytes),
    ("upload_bytes", .string s.uploadBytes),
    ("max_bytes", .string s.maxBytes),
    ("duration", .ofInt s.duration.toInt),
    ("max_duration", .ofInt s.maxDuration.toInt),
    ("status", .string s.status.name)]

def record : Record Session :=
  (Record.pure Session.mk)
    |>.required "id" Reader.uint64
    |>.required "account_address" Reader.text
    |>.required "node_address" Reader.text
    |>.required "download_bytes" Reader.text
    |>.required "upload_bytes" Reader.text
    |>.required "max_bytes" Reader.text
    |>.required "duration" Reader.int64
    |>.required "max_duration" Reader.int64
    |>.required "status" Status.reader

end Session

/-- What the node reports about the use of a session, with the client's signature. -/
structure UsageReport where
  nodeAddress : String
  sessionId : UInt64
  downloadBytes : String
  uploadBytes : String
  duration : Int64
  signature : String
  deriving DecidableEq

/-- A message that the node sends. -/
inductive Message where
  | updateSession (report : UsageReport)
  | updateNodeStatus (nodeAddress : String) (status : Status)
  deriving DecidableEq

namespace Message

def toJson : Message → Json
  | .updateSession r =>
    .object [
      ("type", .string "update_session"),
      ("node_address", .string r.nodeAddress),
      ("session_id", .ofNat r.sessionId.toNat),
      ("download_bytes", .string r.downloadBytes),
      ("upload_bytes", .string r.uploadBytes),
      ("duration", .ofInt r.duration.toInt),
      ("signature", .string r.signature)]
  | .updateNodeStatus nodeAddress status =>
    .object [
      ("type", .string "update_node_status"),
      ("node_address", .string nodeAddress),
      ("status", .string status.name)]

def usageRecord : Record Message :=
  (Record.pure fun a b c d e f => Message.updateSession ⟨a, b, c, d, e, f⟩)
    |>.required "node_address" Reader.text
    |>.required "session_id" Reader.uint64
    |>.required "download_bytes" Reader.text
    |>.required "upload_bytes" Reader.text
    |>.required "duration" Reader.int64
    |>.required "signature" Reader.text

def statusRecord : Record Message :=
  (Record.pure Message.updateNodeStatus)
    |>.required "node_address" Reader.text
    |>.required "status" (Reader.innerCaseName Status.ofName?)

def reader : Reader Message := Reader.tagged fun tag =>
  if tag = "update_session" then some usageRecord
  else if tag = "update_node_status" then some statusRecord
  else none

end Message

/-- The code of success. -/
def codeOk : UInt32 := 0

/-- The answer to a transaction that was handed in. -/
structure Receipt where
  hash : String
  code : UInt32
  log : String
  deriving DecidableEq

/-- Was the transaction accepted? -/
def Receipt.isOk (r : Receipt) : Bool := r.code == codeOk

def Receipt.toJson (r : Receipt) : Json :=
  .object [("tx_hash", .string r.hash), ("code", .ofNat r.code.toNat), ("log", .string r.log)]

def Receipt.record : Record Receipt :=
  (Record.pure Receipt.mk)
    |>.required "tx_hash" Reader.text
    |>.required "code" Reader.uint32
    |>.optional "log" Reader.text ""

/-- The outcome of a transaction that is part of a block. -/
structure Inclusion where
  hash : String
  height : UInt64
  code : UInt32
  log : String
  deriving DecidableEq

/-- Was the transaction executed without an error? -/
def Inclusion.isOk (r : Inclusion) : Bool := r.code == codeOk

def Inclusion.toJson (r : Inclusion) : Json :=
  .object [("tx_hash", .string r.hash), ("height", .ofNat r.height.toNat),
    ("code", .ofNat r.code.toNat), ("log", .string r.log)]

def Inclusion.record : Record Inclusion :=
  (Record.pure Inclusion.mk)
    |>.required "tx_hash" Reader.text
    |>.required "height" Reader.uint64
    |>.required "code" Reader.uint32
    |>.optional "log" Reader.text ""

end VpnNode.Chain
