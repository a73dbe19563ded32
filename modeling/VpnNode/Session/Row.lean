import VpnNode.Session.Basic
import VpnNode.Time.Text

/-!
# Stored sessions

A session is stored as a JSON object with its fields in order.
-/

namespace VpnNode.Session

open Json

def toJson (s : Session) : Json :=
  .object [
    ("id", .ofNat s.id.toNat),
    ("account_address", .string s.accountAddress),
    ("node_address", .string s.nodeAddress),
    ("download_bytes", .string s.downloadBytes),
    ("upload_bytes", .string s.uploadBytes),
    ("max_bytes", .string s.maxBytes),
    ("duration", .ofInt s.duration.toInt),
    ("max_duration", .ofInt s.maxDuration.toInt),
    ("signature", .string s.signature),
    ("peer_key", .string s.peerKey),
    ("service_type", .string s.service.name),
    ("created_at", .string s.createdAt.render),
    ("updated_at", .string s.updatedAt.render)]

/-- The stored text of a session. -/
def encode (s : Session) : String := s.toJson.render

def record : Record Session :=
  (Record.pure Session.mk)
    |>.required "id" Reader.uint64
    |>.required "account_address" Reader.text
    |>.required "node_address" Reader.text
    |>.required "download_bytes" Reader.text
    |>.required "upload_bytes" Reader.text
    |>.required "max_bytes" Reader.text
    |>.required "duration" Reader.int64
    |>.required "max_duration" Reader.int64
    |>.required "signature" Reader.text
    |>.required "peer_key" Reader.text
    |>.required "service_type" (Reader.caseName Service.ofName?)
    |>.required "created_at" (Reader.spelled Time.parse?)
    |>.required "updated_at" (Reader.spelled Time.parse?)

/-- The session of a stored text. -/
def decode? (text : String) : Option Session := Reader.ofText? record.read text

end VpnNode.Session
